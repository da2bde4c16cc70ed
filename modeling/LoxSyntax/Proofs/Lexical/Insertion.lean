import LoxSyntax.Proofs.Lexical.Cut

/-! # Layout between items
Blanks and comments may be put into a source wherever one of its items starts or ends, and its items
stay the same but for their places (`scan_insert`). Two things can go wrong, and nothing else: a
comment right after a slash, and a quote somewhere after a quote that is not closed.

1. *Layout*: texts that are a gap whatever comes after them.
2. *Items without places*: `contents`, and how it goes on from item to item.
3. *Insertion*: along a cut, item by item. -/

namespace LoxSyntax

/-! ## (1) Layout -/

/-- **A text of layout**: blanks and comments, each comment with the newline that ends its line. -/
inductive IsLayout : List UInt8 → Prop where
  /-- No byte at all. -/
  | nil : IsLayout []
  /-- A space, a tab or a newline, and more layout. -/
  | blank {b : UInt8} {w : List UInt8} (blank : b = Byte.space ∨ b = Byte.tab ∨ b = Byte.newline)
    (more : IsLayout w) : IsLayout (b :: w)
  /-- A comment with the end of its line, and more layout. -/
  | comment {text w : List UInt8} (line : Byte.newline ∉ text) (more : IsLayout w) :
    IsLayout (Byte.slash :: Byte.slash :: (text ++ Byte.newline :: w))

/-- Layout may be put in front of every gap. -/
theorem IsLayout.isGap_append {w gap rest : List UInt8} (layout : IsLayout w)
    (isGap : IsGap rest gap) : IsGap rest (w ++ gap) := by
  induction layout with
  | nil => exact isGap
  | blank blank more ih => exact .blank blank ih
  | @comment text w line more ih =>
      have newline : IsGap rest (Byte.newline :: (w ++ gap)) := .blank (.inr (.inr rfl)) ih
      have ends : ∀ b ∈ (Byte.newline :: (w ++ gap) ++ rest).head?, b = Byte.newline :=
        fun b first => (Option.some.inj first).symm
      have whole := IsGap.comment line ends newline
      simpa using whole

/-- What layout starts with. -/
theorem IsLayout.head {w : List UInt8} (layout : IsLayout w) :
    ∀ b ∈ w.head?, b = Byte.space ∨ b = Byte.tab ∨ b = Byte.newline ∨
      b = Byte.slash ∧ [Byte.slash, Byte.slash] <+: w := by
  intro b first
  cases layout with
  | nil => cases first
  | blank blank more =>
      cases first
      rcases blank with blank | blank | blank
      · exact .inl blank
      · exact .inr (.inl blank)
      · exact .inr (.inr (.inl blank))
  | comment line more =>
      cases first
      exact .inr (.inr (.inr ⟨rfl, _, rfl⟩))

/-- **The first line of layout**, and the layout from the newline on. -/
theorem IsLayout.exists_line {w : List UInt8} (layout : IsLayout w) :
    ∃ text w', w = text ++ w' ∧ Byte.newline ∉ text ∧ (∀ b ∈ w'.head?, b = Byte.newline) ∧
      IsLayout w' := by
  induction layout with
  | nil => exact ⟨[], [], rfl, List.not_mem_nil, by simp, .nil⟩
  | @blank b w blank more ih =>
      by_cases newline : b = Byte.newline
      · refine ⟨[], b :: w, rfl, List.not_mem_nil, ?_, .blank blank more⟩
        intro c first
        cases first
        exact newline
      · obtain ⟨text, w', rfl, line, ends, layout⟩ := ih
        exact ⟨b :: text, w', rfl, by simp [line, Ne.symm newline], ends, layout⟩
  | @comment text w line more ih =>
      refine ⟨Byte.slash :: Byte.slash :: text, Byte.newline :: w, rfl, ?_, ?_,
        .blank (.inr (.inr rfl)) more⟩
      · simp only [List.mem_cons, not_or]
        exact ⟨by decide, by decide, line⟩
      · intro c first
        cases first
        rfl

/-- A gap that does not go up to the end is layout: what ends its last comment is a newline of its
own. -/
theorem IsGap.isLayout {gap rest : List UInt8} (isGap : IsGap rest gap) (bare : IsBare rest)
    (written : rest ≠ []) : IsLayout gap := by
  induction isGap with
  | nil => exact .nil
  | blank blank more ih => exact .blank blank ih
  | @comment text gap line ends more ih =>
      cases gap with
      | nil =>
          obtain ⟨b, rest, rfl⟩ := List.exists_cons_of_ne_nil written
          exact absurd (ends b rfl) (bare.blank b rfl).2.2
      | cons b gap =>
          obtain rfl : b = Byte.newline := ends b rfl
          -- The newline is no comment, so it is the first blank of the layout after the comment.
          cases ih with
          | blank blank more => exact .comment line more

/-- Layout may be put after a gap at the end: a comment that ended there goes on with it. -/
theorem IsGap.append_layout {gap w : List UInt8} (isGap : IsGap [] gap) (layout : IsLayout w) :
    IsGap [] (gap ++ w) := by
  induction isGap with
  | nil =>
      have whole : IsGap [] (w ++ []) := layout.isGap_append .nil
      rwa [List.append_nil] at whole
  | blank blank more ih => exact .blank blank ih
  | @comment text gap line ends more ih =>
      cases gap with
      | nil =>
          obtain ⟨text', w', rfl, line', ends', layout'⟩ := layout.exists_line
          have more' : IsGap [] (w' ++ []) := layout'.isGap_append .nil
          have line'' : Byte.newline ∉ text ++ text' := by
            simp [line, line']
          have whole := IsGap.comment line'' (by simpa using ends') more'
          simpa using whole
      | cons b gap =>
          have whole := IsGap.comment line (by simpa using ends) ih
          simpa using whole

/-! ## (2) Items without places -/

/-- An item without its place: kind, text and value of a token, cause and character of a fault. -/
def Item.unplaced (item : Item) : Item := item.mapSpan fun _ => .origin

/-- An item that was moved is the same without its place. -/
theorem Item.unplaced_mapSpan (f : Span → Span) (item : Item) :
    (item.mapSpan f).unplaced = item.unplaced :=
  Item.mapSpan_mapSpan f (fun _ => .origin) item

/-- **The items of a source without their places.** -/
def contents (source : List UInt8) : List Item := (scan source).map Item.unplaced

/-- The contents of some bytes are their items without places, whatever comes before the bytes. -/
theorem Scans.map_unplaced {before rest : List UInt8} {items : List Item}
    (scans : Scans before rest items) : items.map Item.unplaced = contents rest := by
  rw [scans.eq_shift, List.map_map, contents]
  exact List.map_congr_left fun item _ => item.unplaced_mapSpan _

/-- A gap up to the end holds the end of input only. -/
theorem contents_of_isGap {gap : List UInt8} (isGap : IsGap [] gap) :
    contents gap = [.token (.endOfInput .origin)] := by
  have scans : Scans [] gap _ := .ended isGap
  exact scans.map_unplaced.symm

/-- After a gap come an item and the contents of the bytes after it. -/
theorem contents_of_lexes {gap bytes rest : List UInt8} {span : Span} {item : Item}
    (isGap : IsGap (bytes ++ rest) gap) (bare : IsBare (bytes ++ rest))
    (lexes : Lexes span bytes rest item) :
    contents (gap ++ (bytes ++ rest)) = item.unplaced :: contents rest := by
  obtain ⟨items, more⟩ := exists_scans ([] ++ gap ++ bytes) rest
  have whole := Scans.item isGap bare (lexes.mapSpan fun _ => .after ([] ++ gap) bytes) more
  rw [← whole.map_unplaced, List.map_cons, Item.unplaced_mapSpan, more.map_unplaced]

/-- **Layout in front** changes nothing. -/
theorem contents_append_of_isLayout {w : List UInt8} (layout : IsLayout w) (rest : List UInt8) :
    contents (w ++ rest) = contents rest := by
  obtain ⟨items, scans⟩ := exists_scans [] rest
  cases scans with
  | ended isGap => rw [contents_of_isGap isGap, contents_of_isGap (layout.isGap_append isGap)]
  | item isGap bare lexes more =>
      rw [← List.append_assoc, contents_of_lexes isGap bare lexes,
        contents_of_lexes (layout.isGap_append isGap) bare lexes]

/-! ## (3) Insertion -/

/-- A run of bytes beyond ASCII does not go on over layout. -/
theorem takeWhile_isMultibyte_prefix {w : List UInt8} (layout : IsLayout w)
    (front back : List UInt8) :
    (front ++ (w ++ back)).takeWhile Byte.isMultibyte <+: front ++ back := by
  cases w with
  | nil => exact List.takeWhile_prefix _
  | cons b w =>
      have ascii : Byte.isMultibyte b = false := by
        rcases layout.head b rfl with rfl | rfl | rfl | ⟨rfl, -⟩ <;> decide
      have stops : ((b :: w) ++ back).takeWhile Byte.isMultibyte = [] := by
        simp [ascii]
      rw [List.takeWhile_append, stops]
      split
      · rw [List.append_nil]
        exact List.prefix_append front back
      · exact (List.takeWhile_prefix _).trans (List.prefix_append front back)

/-- **Layout may be put among the bytes after an item**, with two exceptions: no comment comes
directly after a slash, and after a quote that is not closed no quote, nor anything on its line. -/
theorem replaces_insert {item : Item} {front back w : List UInt8} (layout : IsLayout w)
    (slash : front = [] → item.isSlash = true → ¬ [Byte.slash, Byte.slash] <+: w)
    (unclosed : item.isUnclosed = true → front ≠ [] ∧ Byte.quote ∉ w) :
    Replaces item (front ++ back) (front ++ (w ++ back)) where
  head b first := by
    cases front with
    | cons c front => exact .inl first
    | nil =>
        cases w with
        | nil => exact .inl first
        | cons c w =>
            have closed : item.isUnclosed = false :=
              Bool.eq_false_iff.mpr fun same => (unclosed same).1 rfl
            rcases layout.head b first with blank | blank | blank | ⟨blank, comment⟩
            · exact .inr ⟨closed, .inl blank⟩
            · exact .inr ⟨closed, .inr (.inl blank)⟩
            · exact .inr ⟨closed, .inr (.inr (.inl blank))⟩
            · have other : item.isSlash = false :=
                Bool.eq_false_iff.mpr fun same => slash rfl same comment
              exact .inr ⟨closed, .inr (.inr (.inr ⟨blank, other⟩))⟩
  multibyte := takeWhile_isMultibyte_prefix layout front back
  quote open_ none := by
    simp only [List.mem_append, not_or] at none ⊢
    exact ⟨none.1, (unclosed open_).2, none.2⟩

/-- An item stays in bare bytes when those after it are replaced. -/
theorem IsBare.replace {span : Span} {bytes rest rest' : List UInt8} {item : Item}
    (bare : IsBare (bytes ++ rest)) (lexes : Lexes span bytes rest item)
    (replaces : Replaces item rest rest') : IsBare (bytes ++ rest') := by
  obtain ⟨b, more, rfl⟩ := List.exists_cons_of_ne_nil lexes.bytes_ne_nil
  refine ⟨fun c first => bare.blank c first, ?_⟩
  rintro ⟨others, starts⟩
  simp only [List.cons_append, List.nil_append, List.cons.injEq] at starts
  obtain ⟨rfl, starts⟩ := starts
  cases more with
  | cons c more =>
      rw [List.cons_append, List.cons.injEq] at starts
      obtain ⟨rfl, -⟩ := starts
      exact bare.comment ⟨more ++ rest, rfl⟩
  | nil =>
      -- The item is a slash, so no other one comes next.
      obtain ⟨b, bs, lexeme, split, found, same⟩ := Lexeme.read_of_lexes lexes
      obtain ⟨rfl, rfl⟩ := List.cons.inj split
      obtain rfl : lexeme = .fixed .slash := congrArg Prod.fst found.symm
      have first : rest'.head? = some Byte.slash := by
        rw [List.nil_append] at starts
        rw [← starts]
        rfl
      rcases replaces.head _ first with second | ends
      · obtain ⟨after, rfl⟩ := List.head?_eq_some_iff.mp second
        exact bare.comment ⟨after, rfl⟩
      · rw [← same] at ends
        rcases ends.2 with blank | blank | blank | ⟨-, other⟩
        · cases blank
        · cases blank
        · cases blank
        · cases other

/-- A quote that is not closed, as it is written. -/
theorem Lexes.eq_unterminated {span : Span} {bytes rest : List UInt8} {item : Item}
    (lexes : Lexes span bytes rest item) (unclosed : item.isUnclosed = true) :
    ∃ content, bytes = Byte.quote :: content ∧ Byte.quote ∉ content ++ rest ∧
      Byte.newline ∉ content ∧ (∀ b ∈ rest.head?, b = Byte.newline) ∧
      item = .fault (.unterminatedString span) := by
  cases lexes with
  | unterminated none line ends => exact ⟨_, rfl, none, line, ends, rfl⟩
  | _ => cases unclosed

/-- Layout directly after a quote that is not closed: what stands on the line of the quote belongs
to it. -/
theorem contents_of_unclosed {gap bytes back w : List UInt8} {span : Span} {item : Item}
    (isGap : IsGap (bytes ++ back) gap) (lexes : Lexes span bytes back item)
    (unclosed : item.isUnclosed = true) (layout : IsLayout w) (inside : Byte.quote ∉ w) :
    contents (gap ++ (bytes ++ (w ++ back))) = item.unplaced :: contents back := by
  obtain ⟨content, rfl, none, line, ends, rfl⟩ := lexes.eq_unterminated unclosed
  obtain ⟨text, w', rfl, line', ends', layout'⟩ := layout.exists_line
  simp only [List.mem_append, not_or] at none inside
  have longer : Lexes span (Byte.quote :: (content ++ text)) (w' ++ back)
      (.fault (.unterminatedString span)) := by
    refine .unterminated ?_ ?_ ?_
    · simp [none, inside]
    · simp [line, line']
    · cases w' with
      | nil => exact ends
      | cons b w' => exact ends'
  have bare : IsBare (Byte.quote :: (content ++ text) ++ (w' ++ back)) :=
    Layout.isBare_iff.mpr rfl
  have split : Byte.quote :: content ++ (text ++ w' ++ back) =
      Byte.quote :: (content ++ text) ++ (w' ++ back) := by
    simp
  have isGap' : IsGap (Byte.quote :: (content ++ text) ++ (w' ++ back)) gap :=
    isGap.of_head? fun b first => first
  rw [split, contents_of_lexes isGap' bare longer, contents_append_of_isLayout layout']

/-- **Layout that may be put at an offset** behind some items: no comment directly after a slash,
and no quote after a quote that is not closed. -/
structure Insertable (items : List Item) (p : Nat) (w : List UInt8) : Prop where
  /-- A comment would make one comment with a slash that ends there. -/
  slash : ∀ t, .token t ∈ items → t.kind = .slash → t.span.stop = p →
    ¬ [Byte.slash, Byte.slash] <+: w
  /-- A quote would close a quote that is not closed. -/
  unclosed : ∀ span, .fault (.unterminatedString span) ∈ items → span.start < p → Byte.quote ∉ w

/-- What may be put behind some items may be put behind the later ones. -/
theorem Insertable.tail {item : Item} {items : List Item} {p : Nat} {w : List UInt8}
    (insertable : Insertable (item :: items) p w) : Insertable items p w where
  slash t member := insertable.slash t (List.mem_cons_of_mem _ member)
  unclosed span member := insertable.unclosed span (List.mem_cons_of_mem _ member)

/-- No comment may be put directly after a slash. -/
theorem Insertable.not_prefix {before bytes rest w : List UInt8} {item : Item} {items : List Item}
    {p : Nat} (insertable : Insertable (item :: items) p w)
    (lexes : Lexes (.after before bytes) bytes rest item)
    (place : p = before.length + bytes.length) (isSlash : item.isSlash = true) :
    ¬ [Byte.slash, Byte.slash] <+: w := by
  have at_place := lexes.span?_eq
  cases item with
  | fault d => cases isSlash
  | token t =>
      rw [Item.span?, Option.some.injEq] at at_place
      refine insertable.slash t List.mem_cons_self (by simpa [Item.isSlash] using isSlash) ?_
      rw [at_place, place]
      rfl

/-- No quote may be put anywhere after a quote that is not closed. -/
theorem Insertable.quote_not_mem {before bytes rest w : List UInt8} {item : Item}
    {items : List Item} {p : Nat} (insertable : Insertable (item :: items) p w)
    (lexes : Lexes (.after before bytes) bytes rest item)
    (place : before.length + bytes.length ≤ p) (isUnclosed : item.isUnclosed = true) :
    Byte.quote ∉ w := by
  have written := List.length_pos_iff.mpr lexes.bytes_ne_nil
  obtain ⟨_, -, -, -, -, rfl⟩ := lexes.eq_unterminated isUnclosed
  refine insertable.unclosed _ List.mem_cons_self ?_
  simp only [Span.after]
  omega

/-- **Layout at a cut changes no item but by its place**: neither those before the cut nor those
after it. -/
theorem Cut.contents_insert {before front back : List UInt8} {first second : List Item}
    (cut : Cut before front back first second) {w : List UInt8} (layout : IsLayout w) {p : Nat}
    (place : p = before.length + front.length) (insertable : Insertable first p w) :
    contents (front ++ (w ++ back)) = (first ++ second).map Item.unplaced := by
  induction cut generalizing w with
  | here scans =>
      rw [List.nil_append, contents_append_of_isLayout layout]
      exact scans.map_unplaced.symm
  | @gap before gap back second isGap bare scans =>
      -- At the end of the source the gap may end in a comment that the layout goes on with.
      by_cases written : back = []
      · subst written
        rw [List.append_nil, contents_of_isGap (isGap.append_layout layout)]
        exact (contents_of_isGap .nil).symm.trans scans.map_unplaced.symm
      · rw [contents_append_of_isLayout (isGap.isLayout bare written),
          contents_append_of_isLayout layout]
        exact scans.map_unplaced.symm
  | @item before gap bytes front back item first second isGap bare lexes more ih =>
      have place' : p = (before ++ gap ++ bytes).length + front.length := by
        simp only [place, List.length_append]
        omega
      have inside : item.isUnclosed = true → Byte.quote ∉ w := by
        apply insertable.quote_not_mem lexes
        rw [place', ← List.length_append]
        exact Nat.le_add_right _ _
      have split : gap ++ (bytes ++ front) ++ (w ++ back) =
          gap ++ (bytes ++ (front ++ (w ++ back))) := by
        simp
      rw [split, List.cons_append, List.map_cons]
      -- Only what comes directly after a quote that is not closed may become a part of it.
      by_cases directly : item.isUnclosed = true ∧ front = []
      · obtain ⟨isUnclosed, rfl⟩ := directly
        have after := ih .nil place' ⟨by simp, by simp⟩
        rw [List.nil_append, List.nil_append] at after
        rw [List.nil_append] at isGap lexes ⊢
        rw [contents_of_unclosed isGap lexes isUnclosed layout (inside isUnclosed),
          ← after]
      · have follows : front = [] → item.isSlash = true → ¬ [Byte.slash, Byte.slash] <+: w := by
          rintro rfl
          apply insertable.not_prefix lexes
          rw [place', List.length_append, List.length_nil, Nat.add_zero]
        have replaces : Replaces item (front ++ back) (front ++ (w ++ back)) :=
          replaces_insert layout follows fun isUnclosed =>
            ⟨fun empty => directly ⟨isUnclosed, empty⟩, inside isUnclosed⟩
        have isGap' : IsGap (bytes ++ (front ++ (w ++ back))) gap := by
          obtain ⟨b, more, rfl⟩ := List.exists_cons_of_ne_nil lexes.bytes_ne_nil
          exact isGap.of_head? fun c first => first
        rw [contents_of_lexes isGap' (bare.replace lexes replaces) (lexes.replace replaces),
          ih layout place' insertable.tail]

/-- **Layout is invisible.** Blanks and complete comments that are put into a source where an item
starts or ends leave the items as they are but for their places, if no comment is put directly after
a slash and no quote after a quote that is not closed. -/
theorem scan_insert {source w : List UInt8} {p : Nat} (edge : IsEdge (scan source) p)
    (layout : IsLayout w)
    (slash : ∀ t, .token t ∈ scan source → t.kind = .slash → t.span.stop = p →
      ¬ [Byte.slash, Byte.slash] <+: w)
    (unclosed : ∀ span, .fault (.unterminatedString span) ∈ scan source → span.start < p →
      Byte.quote ∉ w) :
    (scan (source.take p ++ w ++ source.drop p)).map Item.unplaced =
      (scan source).map Item.unplaced := by
  obtain ⟨front, back, first, second, split, place, items, cut⟩ :=
    (scans_scan source).exists_cut edge
  rw [items] at slash unclosed ⊢
  have place' : p = front.length := by
    rw [place, List.length_nil, Nat.zero_add]
  rw [split, place', List.take_left, List.drop_left, List.append_assoc]
  have insertable : Insertable first p w :=
    ⟨fun t member => slash t (List.mem_append_left second member),
      fun span member => unclosed span (List.mem_append_left second member)⟩
  rw [place'] at insertable
  exact cut.contents_insert layout (place'.symm.trans place) insertable

/-- A blank and a comment after a slash, which comes after a quote that is not closed. -/
theorem scan_insert_unclosed :
    let source : List UInt8 := [Byte.quote, Byte.newline, Byte.slash]
    let w : List UInt8 := [Byte.space, Byte.slash, Byte.slash, Byte.newline]
    IsEdge (scan source) 3 ∧ IsLayout w ∧
      (∀ t, .token t ∈ scan source → t.kind = .slash → t.span.stop = 3 →
        ¬ [Byte.slash, Byte.slash] <+: w) ∧
      (∀ span, .fault (.unterminatedString span) ∈ scan source → span.start < 3 →
        Byte.quote ∉ w) ∧
      (scan (source.take 3 ++ w ++ source.drop 3)).map Item.unplaced =
        (scan source).map Item.unplaced := by
  intro source w
  have items : scan source = [.fault (.unterminatedString ⟨0, 1, 1⟩),
      .token (.fixed .slash ⟨2, 3, 2⟩), .token (.endOfInput ⟨3, 3, 2⟩)] := by
    decide +kernel
  have edge : IsEdge (scan source) 3 := by
    rw [items]
    exact ⟨_, List.mem_cons_of_mem _ List.mem_cons_self, _, rfl, .inr rfl⟩
  have comment : IsLayout (Byte.slash :: Byte.slash :: ([] ++ [Byte.newline])) :=
    .comment List.not_mem_nil .nil
  have layout : IsLayout w := .blank (.inl rfl) comment
  have slash : ¬ [Byte.slash, Byte.slash] <+: w := by decide
  have inside : Byte.quote ∉ w := by decide
  exact ⟨edge, layout, fun _ _ _ _ => slash, fun _ _ _ => inside,
    scan_insert edge layout (fun _ _ _ _ => slash) fun _ _ _ => inside⟩

end LoxSyntax

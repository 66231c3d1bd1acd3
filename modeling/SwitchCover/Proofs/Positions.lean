import Mathlib.Data.List.TakeWhile
import Mathlib.Data.Prod.Lex
import Mathlib.Order.Interval.Finset.Nat
import SwitchCover.Proofs.Tokens

namespace SwitchCover

namespace Text

theorem startsAfter_append (n : Nat) (xs ys : List Char) :
    startsAfter n (xs ++ ys) = startsAfter n xs ++ startsAfter (n + byteLength xs) ys := by
  induction xs generalizing n with
  | nil => rfl
  | cons c xs ih =>
    simp only [List.cons_append, startsAfter, ih, byteLength, Nat.add_assoc]
    split
    · rfl
    · rfl

theorem length_startsAfter (n : Nat) (cs : List Char) :
    (startsAfter n cs).length = cs.count '\n' := by
  induction cs generalizing n with
  | nil => rfl
  | cons c cs ih =>
    simp only [startsAfter, List.count_cons, beq_iff_eq]
    split
    · rw [List.length_cons, ih]
    · exact ih _

theorem mem_startsAfter (h : m ∈ startsAfter n cs) : n < m ∧ m ≤ n + byteLength cs := by
  induction cs generalizing n with
  | nil => cases h
  | cons c cs ih =>
    have hc := c.utf8Size_pos
    have hrest (h : m ∈ startsAfter (n + c.utf8Size) cs) :
        n < m ∧ m ≤ n + byteLength (c :: cs) := by
      have hm := ih h
      simp only [byteLength]
      omega
    simp only [startsAfter] at h
    split at h
    · rcases List.mem_cons.1 h with rfl | h
      · simp only [byteLength]
        omega
      · exact hrest h
    · exact hrest h

theorem lineStarts_append (xs ys : List Char) :
    lineStarts (xs ++ ys) = lineStarts xs ++ startsAfter (byteLength xs) ys := by
  rw [lineStarts, startsAfter_append, Nat.zero_add]
  rfl

theorem length_lineStarts (cs : List Char) : (lineStarts cs).length = cs.count '\n' + 1 := by
  rw [lineStarts, List.length_cons, length_startsAfter]

theorem le_of_mem_lineStarts (h : m ∈ lineStarts cs) : m ≤ byteLength cs := by
  rcases List.mem_cons.1 h with rfl | h
  · exact Nat.zero_le _
  · simpa using (mem_startsAfter h).2

theorem lineIndex_append (hle : byteLength before ≤ offset)
    (hgt : ∀ m ∈ startsAfter (byteLength before) after, offset < m) :
    lineIndex (before ++ after) offset = before.count '\n' := by
  have hpast : ∀ m ∈ lineStarts before, decide (m ≤ offset) = true :=
    fun m hm => decide_eq_true (Nat.le_trans (le_of_mem_lineStarts hm) hle)
  have hnext : (startsAfter (byteLength before) after).takeWhile (· ≤ offset) = [] := by
    cases hs : startsAfter (byteLength before) after with
    | nil => rfl
    | cons m ms =>
      have hm := hgt m (hs ▸ List.mem_cons_self)
      exact List.takeWhile_cons_of_neg (by simpa using hm)
  rw [lineIndex, lineStarts_append, List.takeWhile_append_of_pos hpast, hnext, List.append_nil,
    length_lineStarts, Nat.add_sub_cancel]

/-- The line of a boundary is the number of line feeds before it. -/
theorem lineIndex_byteLength (before after : List Char) :
    lineIndex (before ++ after) (byteLength before) = before.count '\n' :=
  lineIndex_append (Nat.le_refl _) fun _ hm => (mem_startsAfter hm).1

theorem lineIndex_of_le (h : byteLength cs ≤ offset) : lineIndex cs offset = cs.count '\n' := by
  have hlast : lineIndex (cs ++ []) offset = cs.count '\n' := lineIndex_append h nofun
  rwa [List.append_nil] at hlast

theorem lineIndex_min (cs : List Char) (offset : Nat) :
    lineIndex cs (min offset (byteLength cs)) = lineIndex cs offset := by
  rcases Nat.le_total offset (byteLength cs) with hle | hle
  · rw [Nat.min_eq_left hle]
  · rw [Nat.min_eq_right hle, lineIndex_of_le hle, lineIndex_of_le (Nat.le_refl _)]

/-- The lines above another line: nothing, or text up to and including a line feed. -/
inductive FullLines : List Char → Prop where
  | none : FullLines []
  | feed (xs : List Char) : FullLines (xs ++ ['\n'])

theorem exists_fullLines (before : List Char) :
    ∃ above current, before = above ++ current ∧ FullLines above ∧ '\n' ∉ current := by
  induction before using List.reverseRecOn with
  | nil => exact ⟨[], [], rfl, .none, List.not_mem_nil⟩
  | append_singleton before c ih =>
    by_cases hc : c = '\n'
    · subst hc
      exact ⟨before ++ ['\n'], [], (List.append_nil _).symm, .feed before, List.not_mem_nil⟩
    · obtain ⟨above, current, rfl, hf, hn⟩ := ih
      refine ⟨above, current ++ [c], List.append_assoc .., hf, ?_⟩
      simp [hn, Ne.symm hc]

namespace FullLines

variable {above current : List Char}

theorem lineStarts_getElem? (h : FullLines above) (rest : List Char) :
    (lineStarts (above ++ rest))[above.count '\n']? = some (byteLength above) := by
  rw [lineStarts_append, List.getElem?_append_left (by simp [length_lineStarts])]
  cases h with
  | none => rfl
  | feed xs =>
    have hone : startsAfter (byteLength xs) ['\n'] = [byteLength (xs ++ ['\n'])] := by
      rw [byteLength_append]
      rfl
    rw [lineStarts_append, hone, List.count_append,
      List.getElem?_append_right (by simp [length_lineStarts])]
    simp [length_lineStarts]

theorem lineIndex (h : '\n' ∉ current) (above after : List Char) :
    lineIndex (above ++ current ++ after) (byteLength (above ++ current)) = above.count '\n' := by
  rw [lineIndex_byteLength, List.count_append, List.count_eq_zero_of_not_mem h, Nat.add_zero]

theorem lineRange (h : FullLines above) (hc : '\n' ∉ current) (after : List Char) :
    ∃ stop, lineRange (above ++ current ++ after) (above.count '\n') =
      .ok (byteLength above, stop) ∧ byteLength (above ++ current) ≤ stop := by
  have hstart : lineStart (above ++ current ++ after) (above.count '\n') =
      .ok (byteLength above) := by
    rw [lineStart, List.append_assoc, h.lineStarts_getElem?]
  have hlen : (lineStarts (above ++ current)).length = above.count '\n' + 1 := by
    rw [length_lineStarts, List.count_append, List.count_eq_zero_of_not_mem hc]
  have hnext : ∃ stop, lineStart (above ++ current ++ after) (above.count '\n' + 1) = .ok stop ∧
      byteLength (above ++ current) ≤ stop := by
    rw [lineStart, lineStarts_append _ after, List.getElem?_append_right hlen.le, hlen,
      Nat.sub_self]
    cases hs : startsAfter (byteLength (above ++ current)) after with
    | nil =>
      refine ⟨_, if_pos (by simp [hlen]), ?_⟩
      rw [byteLength_append _ after]
      exact Nat.le_add_right _ _
    | cons m ms =>
      exact ⟨m, rfl, (mem_startsAfter (hs ▸ List.mem_cons_self)).1.le⟩
  obtain ⟨stop, hstop, hle⟩ := hnext
  refine ⟨stop, ?_, hle⟩
  rw [Text.lineRange, hstart, hstop]
  rfl

theorem lineCol (h : FullLines above) (hc : '\n' ∉ current) (after : List Char) :
    lineCol (above ++ current ++ after) (byteLength (above ++ current)) =
      (above.count '\n' + 1, current.length + 1) := by
  have hmin : min (byteLength (above ++ current)) (byteLength (above ++ current ++ after)) =
      byteLength (above ++ current) := by
    rw [byteLength_append _ after]
    exact Nat.min_eq_left (Nat.le_add_right _ _)
  have hstart : (lineStarts (above ++ current ++ after)).getD (above.count '\n') 0 =
      byteLength above := by
    rw [List.append_assoc, List.getD_eq_getElem?_getD, h.lineStarts_getElem?, Option.getD_some]
  have hslice : slice? (above ++ current ++ after) (byteLength above)
      (byteLength (above ++ current)) = some current :=
    slice?_eq_some.2 ⟨above, after, rfl, rfl, byteLength_append ..⟩
  simp only [Text.lineCol, hmin, FullLines.lineIndex hc, hstart, hslice]

end FullLines

theorem charsWithin_byteLength (xs ys : List Char) :
    charsWithin (byteLength xs) (xs ++ ys) = xs.length := by
  induction xs with
  | nil =>
    cases ys with
    | nil => rfl
    | cons c ys => exact if_neg (Nat.not_le.2 c.utf8Size_pos)
  | cons c xs ih =>
    rw [byteLength, List.cons_append, charsWithin, if_pos (Nat.le_add_right _ _),
      Nat.add_sub_cancel_left, ih, List.length_cons]

theorem FullLines.location (h : FullLines above) (hc : '\n' ∉ current) (after : List Char) :
    location (above ++ current ++ after) (byteLength (above ++ current)) =
      .ok (above.count '\n' + 1, current.length + 1) := by
  obtain ⟨stop, hrange, hle⟩ := h.lineRange hc after
  have hmin : min (byteLength (above ++ current))
      (min stop (byteLength (above ++ current ++ after))) = byteLength (above ++ current) := by
    rw [byteLength_append _ after]
    omega
  have hsplit : splitAt? (byteLength above) (above ++ current ++ after) =
      some (above, current ++ after) := by
    rw [List.append_assoc, splitAt?_byteLength]
  have hcount : charsWithin (byteLength (above ++ current) - byteLength above)
      (current ++ after) = current.length := by
    rw [byteLength_append, Nat.add_sub_cancel_left, charsWithin_byteLength]
  rw [Text.location, FullLines.lineIndex hc, hrange]
  simp only [bind, Except.bind, pure, Except.pure, hmin, hsplit, hcount]

theorem location_min (cs : List Char) (offset : Nat) :
    location cs (min offset (byteLength cs)) = location cs offset := by
  have hmin (stop : Nat) : min (min offset (byteLength cs)) (min stop (byteLength cs)) =
      min offset (min stop (byteLength cs)) := by
    omega
  simp only [location, lineIndex_min, hmin]

/-- The next boundary behind a character's start is its end. -/
theorem IsBoundary.behind (h : IsBoundary (before ++ c :: after) n) (hn : byteLength before < n) :
    byteLength before + c.utf8Size ≤ n := by
  obtain ⟨before', after', he, rfl⟩ := h
  obtain ⟨mid, rfl, hmid⟩ := exists_append_of_byteLength_le he hn.le
  cases mid with
  | nil => simp at hn
  | cons d mid =>
    cases hmid
    simp only [byteLength_append, byteLength]
    omega

/-- Every character between two boundaries brings one boundary, where it ends. -/
theorem card_isBoundary (xs ys zs : List Char) :
    ((Finset.Ioc (byteLength xs) (byteLength (xs ++ ys))).filter
      (IsBoundary (xs ++ ys ++ zs))).card = ys.length := by
  induction ys using List.reverseRecOn generalizing zs with
  | nil => simp
  | append_singleton ys c ih =>
    have hsize := c.utf8Size_pos
    have hlen : byteLength (xs ++ (ys ++ [c])) = byteLength (xs ++ ys) + c.utf8Size := by
      rw [← List.append_assoc, byteLength_append (xs ++ ys)]
      rfl
    have htext : xs ++ (ys ++ [c]) ++ zs = xs ++ ys ++ c :: zs := by simp
    have hsplit : (Finset.Ioc (byteLength xs) (byteLength (xs ++ ys) + c.utf8Size)).filter
          (IsBoundary (xs ++ ys ++ c :: zs)) =
        insert (byteLength (xs ++ ys) + c.utf8Size)
          ((Finset.Ioc (byteLength xs) (byteLength (xs ++ ys))).filter
            (IsBoundary (xs ++ ys ++ c :: zs))) := by
      have hxs : byteLength xs ≤ byteLength (xs ++ ys) := by
        rw [byteLength_append]
        exact Nat.le_add_right _ _
      ext n
      simp only [Finset.mem_filter, Finset.mem_Ioc, Finset.mem_insert]
      constructor
      · rintro ⟨⟨hlo, hhi⟩, hb⟩
        rcases Nat.lt_or_ge (byteLength (xs ++ ys)) n with hn | hn
        · have hend := hb.behind hn
          exact .inl (by omega)
        · exact .inr ⟨⟨hlo, hn⟩, hb⟩
      · rintro (rfl | ⟨⟨hlo, hhi⟩, hb⟩)
        · exact ⟨⟨by omega, Nat.le_refl _⟩, xs ++ (ys ++ [c]), zs, htext.symm, hlen⟩
        · exact ⟨⟨hlo, by omega⟩, hb⟩
    rw [hlen, htext, hsplit, Finset.card_insert_of_notMem, ih, List.length_append]
    · rfl
    · simp only [Finset.mem_filter, Finset.mem_Ioc, not_and]
      omega

theorem filter_isBoundary_min (cs : List Char) (start offset : Nat) :
    (Finset.Ioc start (min offset (byteLength cs))).filter (IsBoundary cs) =
      (Finset.Ioc start offset).filter (IsBoundary cs) := by
  ext n
  simp only [Finset.mem_filter, Finset.mem_Ioc, le_min_iff]
  constructor
  · rintro ⟨⟨hlo, hhi, -⟩, hb⟩
    exact ⟨⟨hlo, hhi⟩, hb⟩
  · rintro ⟨⟨hlo, hhi⟩, hb⟩
    exact ⟨⟨hlo, hhi, hb.le⟩, hb⟩

theorem lineCol_min (cs : List Char) (offset : Nat) :
    lineCol cs (min offset (byteLength cs)) = lineCol cs offset := by
  simp only [lineCol, Nat.min_assoc, Nat.min_self]

/-- The two positions of an offset agree, and the column counts the boundaries on the line up to
the offset. -/
theorem location_eq_lineCol (h : IsBoundary cs (min offset (byteLength cs))) :
    location cs offset = .ok (lineCol cs offset) ∧
      ∃ start stop, lineRange cs (lineIndex cs offset) = .ok (start, stop) ∧
        lineCol cs offset = (lineIndex cs offset + 1,
          ((Finset.Ioc start offset).filter (IsBoundary cs)).card + 1) := by
  rw [← location_min, ← lineCol_min, ← lineIndex_min]
  obtain ⟨before, after, hcs, hlen⟩ := h
  obtain ⟨above, current, rfl, hf, hc⟩ := exists_fullLines before
  have hcard := card_isBoundary above current after
  rw [← hcs, hlen, filter_isBoundary_min] at hcard
  rw [← hlen, hcs, hf.location hc, hf.lineCol hc, FullLines.lineIndex hc]
  obtain ⟨stop, hrange, -⟩ := hf.lineRange hc after
  refine ⟨rfl, byteLength above, stop, hrange, ?_⟩
  rw [← hcs, hcard]

/-- A later boundary is on a later line, or behind on the same line. -/
theorem lineCol_lt_lineCol (ha : IsBoundary cs a) (hb : IsBoundary cs b) (h : a < b) :
    toLex (lineCol cs a) < toLex (lineCol cs b) := by
  obtain ⟨before, rest, rfl, rfl⟩ := ha
  obtain ⟨before', after, he, rfl⟩ := hb
  obtain ⟨mid, rfl, rfl⟩ := exists_append_of_byteLength_le he h.le
  have hmid : mid ≠ [] := by
    rintro rfl
    rw [List.append_nil] at h
    exact Nat.lt_irrefl _ h
  obtain ⟨above, current, rfl, hf, hc⟩ := exists_fullLines before
  have hfirst := hf.lineCol hc (mid ++ after)
  rw [hfirst]
  by_cases hn : '\n' ∈ mid
  · obtain ⟨above', current', hm, hf', hc'⟩ := exists_fullLines (above ++ current ++ mid)
    have hsecond := hf'.lineCol hc' after
    rw [← hm] at hsecond
    rw [← List.append_assoc, hsecond, Prod.Lex.toLex_lt_toLex]
    have hcount := congrArg (List.count '\n') hm
    rw [List.count_append, List.count_append, List.count_append,
      List.count_eq_zero_of_not_mem hc, List.count_eq_zero_of_not_mem hc'] at hcount
    have hpos := List.count_pos_iff.2 hn
    left
    simp only
    omega
  · have hc' : '\n' ∉ current ++ mid := by simp [hc, hn]
    have hsecond := hf.lineCol hc' after
    simp only [List.append_assoc] at hsecond ⊢
    rw [hsecond, Prod.Lex.toLex_lt_toLex]
    have hpos := List.length_pos_of_ne_nil hmid
    right
    simp only [List.length_append, true_and]
    omega

end Text

namespace SourceText

/-- One-line reports show the position of rendered snippets: the number of the line, and one more
than the number of characters that end on it up to the offset. Later boundaries have later
positions. -/
theorem lineCol_agrees (f : SourceText) :
    (∀ (store : FileStore) (id : FileId) (offset : Nat), store.get? id = some f →
      Text.IsBoundary f.chars (min offset (Text.byteLength f.chars)) →
      store.location id offset = .ok (f.lineCol offset) ∧
        ∃ line range, store.lineIndex id offset = .ok line ∧ store.lineRange id line = .ok range ∧
          f.lineCol offset = (line + 1,
            ((Finset.Ioc range.start offset).filter (Text.IsBoundary f.chars)).card + 1)) ∧
    ∀ a b, Text.IsBoundary f.chars a → Text.IsBoundary f.chars b → a < b →
      toLex (f.lineCol a) < toLex (f.lineCol b) := by
  refine ⟨?_, fun a b => Text.lineCol_lt_lineCol⟩
  intro store id offset hf hb
  have hget : store.get id = .ok f := by rw [FileStore.get, hf]
  obtain ⟨hloc, start, stop, hrange, hcol⟩ := Text.location_eq_lineCol hb
  refine ⟨?_, f.lineIndex offset, ⟨start, stop⟩, ?_, ?_, hcol⟩
  · rw [FileStore.location, hget]
    simp only [bind, Except.bind, location, hloc]
    rfl
  · rw [FileStore.lineIndex, hget]
    rfl
  · rw [FileStore.lineRange, hget]
    simp only [bind, Except.bind, lineRange, lineIndex, hrange]

/-- A character of two bytes before the line feed; the offset 9 is beyond the end. -/
def accented : SourceText :=
  ⟨"a.go", "aé\nb"⟩

theorem lineCol_agrees_accented :
    (⟨[accented]⟩ : FileStore).get? ⟨0⟩ = some accented ∧
      Text.IsBoundary accented.chars (min 9 (Text.byteLength accented.chars)) ∧
      (⟨[accented]⟩ : FileStore).location ⟨0⟩ 9 = .ok (2, 2) ∧
      Text.IsBoundary accented.chars 3 ∧ Text.IsBoundary accented.chars 4 ∧
      toLex (accented.lineCol 3) < toLex (accented.lineCol 4) := by
  have hb : Text.IsBoundary accented.chars (min 9 (Text.byteLength accented.chars)) := by decide
  have h3 : Text.IsBoundary accented.chars 3 := by decide
  have h4 : Text.IsBoundary accented.chars 4 := by decide
  obtain ⟨hloc, hlt⟩ := lineCol_agrees accented
  have hcol : accented.lineCol 9 = (2, 2) := by decide
  rw [← hcol]
  exact ⟨rfl, hb, (hloc _ ⟨0⟩ 9 rfl hb).1, h3, h4, hlt 3 4 h3 h4 (by decide)⟩

end SourceText

end SwitchCover

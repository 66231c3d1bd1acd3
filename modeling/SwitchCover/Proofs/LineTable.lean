import SwitchCover.Proofs.Positions

namespace SwitchCover

namespace Text

variable {cs above line after : List Char}

/-- A line in front of the text `after`: up to its line feed, or up to the end of the text. -/
inductive IsLine : List Char → List Char → Prop where
  | feed (h : '\n' ∉ body) (after : List Char) : IsLine (body ++ ['\n']) after
  | last (h : '\n' ∉ body) : IsLine body []

theorem exists_isLine (rest : List Char) :
    ∃ line after, rest = line ++ after ∧ IsLine line after := by
  induction rest with
  | nil => exact ⟨[], [], rfl, .last List.not_mem_nil⟩
  | cons c rest ih =>
    by_cases hc : c = '\n'
    · subst hc
      exact ⟨[] ++ ['\n'], rest, rfl, .feed List.not_mem_nil rest⟩
    · obtain ⟨line, after, rfl, hline⟩ := ih
      cases hline with
      | @feed body h =>
        have hn : '\n' ∉ c :: body := by simp [Ne.symm hc, h]
        exact ⟨c :: body ++ ['\n'], after, by simp, .feed hn after⟩
      | last h =>
        have hn : '\n' ∉ c :: line := by simp [Ne.symm hc, h]
        exact ⟨c :: line, [], rfl, .last hn⟩

theorem startsAfter_eq_nil (h : '\n' ∉ cs) (n : Nat) : startsAfter n cs = [] := by
  rw [← List.length_eq_zero_iff, length_startsAfter, List.count_eq_zero_of_not_mem h]

theorem IsLine.le_of_mem_startsAfter (h : IsLine line after)
    (hm : m ∈ startsAfter n (line ++ after)) : n + byteLength line ≤ m := by
  cases h with
  | @feed body hn =>
    rw [List.append_assoc, startsAfter_append, startsAfter_eq_nil hn, List.nil_append,
      List.singleton_append, startsAfter, if_pos rfl] at hm
    rw [byteLength_append, ← Nat.add_assoc]
    rcases List.mem_cons.1 hm with rfl | hm
    · exact Nat.le_refl _
    · exact (mem_startsAfter hm).1.le
  | last hn =>
    rw [List.append_nil, startsAfter_eq_nil hn] at hm
    cases hm

/-- Line `i` of a text stands between the lines above it and the rest of the text. -/
structure LineAt (cs : List Char) (i : Nat) (above line after : List Char) : Prop where
  text : cs = above ++ line ++ after
  full : FullLines above
  number : above.count '\n' = i
  isLine : IsLine line after

theorem FullLines.exists_lineAt (h : FullLines above) (rest : List Char) :
    ∃ line after, LineAt (above ++ rest) (above.count '\n') above line after := by
  obtain ⟨line, after, rfl, hline⟩ := exists_isLine rest
  exact ⟨line, after, (List.append_assoc ..).symm, h, rfl, hline⟩

theorem exists_lineAt (h : i ≤ cs.count '\n') :
    ∃ above line after, LineAt cs i above line after := by
  induction i with
  | zero =>
    obtain ⟨line, after, hline⟩ := FullLines.none.exists_lineAt cs
    exact ⟨[], line, after, hline⟩
  | succ i ih =>
    obtain ⟨above, line, after, rfl, hf, rfl, hline⟩ := ih (Nat.le_of_succ_le h)
    cases hline with
    | @feed body hn =>
      rw [← List.append_assoc above]
      obtain ⟨line, after, hnext⟩ := (FullLines.feed (above ++ body)).exists_lineAt after
      refine ⟨_, line, after, hnext.text, hnext.full, ?_, hnext.isLine⟩
      simp [List.count_eq_zero_of_not_mem hn]
    | last hn =>
      -- The text has no line feed behind the lines above.
      simp [List.count_eq_zero_of_not_mem hn] at h

theorem lineRange_eq_ok_iff : lineRange cs i = .ok (start, stop) ↔
    lineStart cs i = .ok start ∧ lineStart cs (i + 1) = .ok stop := by
  rw [lineRange]
  cases lineStart cs i with
  | error e => simp [bind, Except.bind]
  | ok s => cases lineStart cs (i + 1) <;> simp [bind, Except.bind, pure, Except.pure]

namespace LineAt

variable (h : LineAt cs i above line after)

include h

theorem lineRange : lineRange cs i = .ok (byteLength above, byteLength (above ++ line)) := by
  obtain ⟨rfl, hf, rfl, hline⟩ := h
  have hstart : lineStart (above ++ line ++ after) (above.count '\n') =
      .ok (byteLength above) := by
    rw [lineStart, List.append_assoc, hf.lineStarts_getElem?]
  have hnext : lineStart (above ++ line ++ after) (above.count '\n' + 1) =
      .ok (byteLength (above ++ line)) := by
    cases hline with
    | @feed body hn =>
      have hcount : above.count '\n' + 1 = (above ++ body ++ ['\n']).count '\n' := by
        simp [List.count_eq_zero_of_not_mem hn]
      rw [lineStart, ← List.append_assoc above, hcount,
        (FullLines.feed (above ++ body)).lineStarts_getElem?]
    | last hn =>
      have hlen : (lineStarts (above ++ line)).length = above.count '\n' + 1 := by
        rw [length_lineStarts, List.count_append, List.count_eq_zero_of_not_mem hn]
      rw [List.append_nil, lineStart, List.getElem?_eq_none hlen.le]
      exact if_pos hlen.symm
  exact lineRange_eq_ok_iff.2 ⟨hstart, hnext⟩

theorem lineIndex (hle : byteLength above ≤ b) (hlt : b < byteLength (above ++ line)) :
    lineIndex cs b = i := by
  rw [h.text, ← h.number, List.append_assoc]
  apply lineIndex_append hle
  intro m hm
  rw [byteLength_append] at hlt
  exact Nat.lt_of_lt_of_le hlt (h.isLine.le_of_mem_startsAfter hm)

theorem feed_of_lt (hi : i < cs.count '\n') : ∃ body, line = body ++ ['\n'] ∧ '\n' ∉ body := by
  obtain ⟨rfl, -, rfl, hline⟩ := h
  cases hline with
  | @feed body hn => exact ⟨body, rfl, hn⟩
  | last hn => simp [List.count_eq_zero_of_not_mem hn] at hi

theorem eq_of_last (hi : i = cs.count '\n') : '\n' ∉ line ∧ cs = above ++ line := by
  obtain ⟨rfl, -, rfl, hline⟩ := h
  cases hline with
  | feed hn => simp at hi
  | last hn => exact ⟨hn, List.append_nil _⟩

theorem slice : slice? cs (byteLength above) (byteLength (above ++ line)) = some line := by
  rw [h.text]
  exact slice?_eq_some.2 ⟨above, after, rfl, rfl, byteLength_append ..⟩

end LineAt

theorem lineRange_adjacent (h : lineRange cs i = .ok (start, stop))
    (h' : lineRange cs (i + 1) = .ok (start', stop')) : stop = start' :=
  Except.ok.inj ((lineRange_eq_ok_iff.1 h).2.symm.trans (lineRange_eq_ok_iff.1 h').1)

theorem lineRange_eq_error (h : cs.count '\n' < i) : ∃ e, lineRange cs i = .error e := by
  have hnone : lineStart cs (i + 1) = .error (.tooLarge (i + 1) ((lineStarts cs).length - 1)) := by
    have hlen := length_lineStarts cs
    rw [lineStart, List.getElem?_eq_none (by omega)]
    exact if_neg (by omega)
  rw [lineRange, hnone]
  cases hs : lineStart cs i with
  | error e => exact ⟨e, rfl⟩
  | ok start => exact ⟨_, rfl⟩

theorem FullLines.exists_lineAt_of_lt (hf : FullLines above) (hle : byteLength above ≤ b)
    (hlt : b < byteLength (above ++ rest)) :
    ∃ i above' line after, LineAt (above ++ rest) i above' line after ∧
      byteLength above' ≤ b ∧ b < byteLength (above' ++ line) := by
  induction hn : rest.length using Nat.strong_induction_on generalizing above rest with
  | _ n ih =>
    obtain ⟨line, after, hline⟩ := hf.exists_lineAt rest
    by_cases hb : b < byteLength (above ++ line)
    · exact ⟨_, above, line, after, hline, hle, hb⟩
    · obtain ⟨htext, -, -, hkind⟩ := hline
      cases hkind with
      | @feed body hbody =>
        rw [← List.append_assoc] at hb htext
        rw [htext] at hlt ⊢
        refine ih after.length ?_ (.feed (above ++ body)) (Nat.le_of_not_lt hb) hlt rfl
        have hlen := congrArg List.length htext
        simp only [List.length_append, List.length_singleton] at hlen
        omega
      | last hbody =>
        rw [List.append_nil] at htext
        exact absurd (htext ▸ hlt) hb

/-- An offset of the text is on the line whose range holds it. -/
theorem lineIndex_eq_iff (hb : b < byteLength cs) :
    lineIndex cs b = i ↔
      ∃ start stop, lineRange cs i = .ok (start, stop) ∧ start ≤ b ∧ b < stop := by
  constructor
  · rintro rfl
    obtain ⟨i, above, line, after, hline, hle, hlt⟩ :=
      FullLines.none.exists_lineAt_of_lt (Nat.zero_le b) hb
    rw [List.nil_append] at hline
    rw [hline.lineIndex hle hlt]
    exact ⟨_, _, hline.lineRange, hle, hlt⟩
  · rintro ⟨start, stop, hrange, hle, hlt⟩
    rcases Nat.lt_or_ge (cs.count '\n') i with hi | hi
    · obtain ⟨e, he⟩ := lineRange_eq_error hi
      rw [he] at hrange
      cases hrange
    · obtain ⟨above, line, after, hline⟩ := exists_lineAt hi
      rw [hline.lineRange] at hrange
      cases hrange
      exact hline.lineIndex hle hlt

theorem pairwise_startsAfter (n : Nat) (cs : List Char) :
    (startsAfter n cs).Pairwise (· < ·) := by
  induction cs generalizing n with
  | nil => exact .nil
  | cons c cs ih =>
    simp only [startsAfter]
    split
    · exact .cons (fun m hm => (mem_startsAfter hm).1) (ih _)
    · exact ih _

theorem pairwise_lineStarts (cs : List Char) : (lineStarts cs).Pairwise (· < ·) :=
  .cons (fun _ hm => (mem_startsAfter hm).1) (pairwise_startsAfter 0 cs)

inductive SearchResult where
  | found (i : Nat)
  | absent (next : Nat)

namespace SearchResult

/-- The number stands where it was found, or it does not occur and the smaller numbers are those
before the insertion point. -/
def Reports (ns : List Nat) (n : Nat) : SearchResult → Prop
  | found i => ns[i]? = some n
  | absent next => next ≤ ns.length ∧ ∀ (j : Nat) m, ns[j]? = some m → m ≠ n ∧ (m < n ↔ j < next)

def last : SearchResult → Nat
  | found i => i
  | absent next => next - 1

theorem exists_reports {ns : List Nat} (h : ns.Pairwise (· < ·)) (n : Nat) :
    ∃ r : SearchResult, r.Reports ns n := by
  induction ns with
  | nil => exact ⟨.absent 0, Nat.le_refl _, nofun⟩
  | cons a ns ih =>
    obtain ⟨hall, hrest⟩ := List.pairwise_cons.1 h
    rcases Nat.lt_trichotomy a n with hlt | rfl | hgt
    · obtain ⟨r, hr⟩ := ih hrest
      cases r with
      | found i => exact ⟨.found (i + 1), hr⟩
      | absent next =>
        refine ⟨.absent (next + 1), Nat.succ_le_succ hr.1, ?_⟩
        intro j m hm
        cases j with
        | zero =>
          cases hm
          exact ⟨hlt.ne, iff_of_true hlt (Nat.succ_pos _)⟩
        | succ j =>
          obtain ⟨hne, hiff⟩ := hr.2 j m hm
          exact ⟨hne, hiff.trans (Nat.succ_lt_succ_iff).symm⟩
    · exact ⟨.found 0, rfl⟩
    · refine ⟨.absent 0, Nat.zero_le _, ?_⟩
      intro j m hm
      have hle : n < m := by
        rcases List.mem_cons.1 (List.mem_of_getElem? hm) with rfl | hm
        · exact hgt
        · exact hgt.trans (hall m hm)
      exact ⟨hle.ne', iff_of_false hle.not_gt (Nat.not_lt_zero _)⟩

end SearchResult

theorem length_takeWhile_le {ns : List Nat} (hk : k ≤ ns.length)
    (h : ∀ (j : Nat) m, ns[j]? = some m → (m ≤ n ↔ j < k)) :
    (ns.takeWhile (· ≤ n)).length = k := by
  induction ns generalizing k with
  | nil => exact (Nat.le_zero.1 hk).symm
  | cons a ns ih =>
    have hfirst := h 0 a rfl
    cases k with
    | zero =>
      have hgt : ¬a ≤ n := fun hle => Nat.not_lt_zero _ (hfirst.1 hle)
      rw [List.takeWhile_cons_of_neg (by simpa using hgt), List.length_nil]
    | succ k =>
      have hle : a ≤ n := hfirst.2 (Nat.succ_pos k)
      rw [List.takeWhile_cons_of_pos (by simpa using hle), List.length_cons,
        ih (Nat.le_of_succ_le_succ hk)]
      intro j m hm
      exact (h (j + 1) m hm).trans Nat.succ_lt_succ_iff

theorem SearchResult.Reports.lineIndex {r : SearchResult} (h : r.Reports (lineStarts cs) b) :
    r ≠ .absent 0 ∧ lineIndex cs b = r.last := by
  cases r with
  | found i =>
    obtain ⟨hi, hb⟩ := List.getElem?_eq_some_iff.1 h
    have hlen : ((lineStarts cs).takeWhile (· ≤ b)).length = i + 1 := by
      apply length_takeWhile_le hi
      intro j m hm
      obtain ⟨hj, rfl⟩ := List.getElem?_eq_some_iff.1 hm
      have hsorted := (pairwise_lineStarts cs).sortedLT
      rw [← hb, hsorted.getElem_le_getElem_iff, Nat.lt_succ_iff]
    refine ⟨nofun, ?_⟩
    rw [Text.lineIndex, hlen]
    rfl
  | absent next =>
    obtain ⟨hle, hall⟩ := h
    have hlen : ((lineStarts cs).takeWhile (· ≤ b)).length = next := by
      apply length_takeWhile_le hle
      intro j m hm
      obtain ⟨hne, hiff⟩ := hall j m hm
      rw [← hiff]
      exact ⟨fun hm => lt_of_le_of_ne hm hne, Nat.le_of_lt⟩
    -- The first line starts at 0, which is before every offset that starts no line.
    have hfirst := hall 0 0 rfl
    refine ⟨?_, by rw [Text.lineIndex, hlen]; rfl⟩
    rintro ⟨⟩
    exact Nat.not_lt_zero _ (hfirst.2.1 (Nat.pos_of_ne_zero hfirst.1.symm))

end Text

namespace FileStore

variable {store : FileStore} {id : FileId} {f : SourceText}

theorem lineIndex_eq (h : store.get? id = some f) (b : Nat) :
    store.lineIndex id b = .ok (Text.lineIndex f.chars b) := by
  rw [lineIndex, get, h]
  rfl

theorem lineRange_eq_ok_iff (h : store.get? id = some f) {i : Nat} {r : TextRange} :
    store.lineRange id i = .ok r ↔ Text.lineRange f.chars i = .ok (r.start, r.stop) := by
  rw [lineRange, get, h]
  simp only [bind, Except.bind, SourceText.lineRange]
  cases hr : Text.lineRange f.chars i with
  | error e => simp
  | ok p =>
    constructor
    · rintro ⟨⟩
      rfl
    · rintro ⟨⟩
      rfl

/-- The lines of a file partition its text. There is one more of them than there are line feeds;
they follow each other from the beginning to the end, and every line but the last ends with its
only line feed. An offset is on the line whose range holds it or, behind the text, on the last
line, and it is found by a search among the starts of the lines. -/
theorem lines_partition (store : FileStore) (id : FileId) (f : SourceText)
    (h : store.get? id = some f) :
    let last := f.chars.count '\n'
    (∀ i, (∃ r, store.lineRange id i = .ok r) ↔ i < last + 1) ∧
    (∃ r, store.lineRange id 0 = .ok r ∧ r.start = 0) ∧
    (∀ i r s, store.lineRange id i = .ok r → store.lineRange id (i + 1) = .ok s →
      r.stop = s.start) ∧
    (∀ i < last, ∃ r body, store.lineRange id i = .ok r ∧
      Text.slice? f.chars r.start r.stop = some (body ++ ['\n']) ∧ '\n' ∉ body) ∧
    (∃ r line, store.lineRange id last = .ok r ∧ r.stop = Text.byteLength f.chars ∧
      Text.slice? f.chars r.start r.stop = some line ∧ '\n' ∉ line) ∧
    (∀ b, (∃ r : Text.SearchResult, r.Reports (Text.lineStarts f.chars) b) ∧
      ∀ r : Text.SearchResult, r.Reports (Text.lineStarts f.chars) b →
        r ≠ .absent 0 ∧ store.lineIndex id b = .ok r.last) ∧
    (∀ b < Text.byteLength f.chars, ∀ i, store.lineIndex id b = .ok i ↔
      ∃ r, store.lineRange id i = .ok r ∧ r.start ≤ b ∧ b < r.stop) ∧
    ∀ b ≥ Text.byteLength f.chars, store.lineIndex id b = .ok last := by
  intro last
  simp only [lineRange_eq_ok_iff h, lineIndex_eq h, Except.ok.injEq]
  have hline (i : Nat) (hi : i ≤ last) :
      ∃ above line after, Text.LineAt f.chars i above line after :=
    Text.exists_lineAt hi
  refine ⟨fun i => ⟨?_, ?_⟩, ?_, ?_, ?_, ?_, fun b => ⟨?_, ?_⟩, fun b hb i => ?_, fun b => ?_⟩
  · rintro ⟨r, hr⟩
    by_contra hi
    obtain ⟨e, he⟩ : ∃ e, Text.lineRange f.chars i = .error e :=
      Text.lineRange_eq_error (by omega)
    rw [he] at hr
    cases hr
  · intro hi
    obtain ⟨above, line, after, hat⟩ := hline i (Nat.le_of_lt_succ hi)
    exact ⟨⟨_, _⟩, hat.lineRange⟩
  · obtain ⟨above, line, after, hat⟩ := hline 0 (Nat.zero_le _)
    have hstart := (Text.lineRange_eq_ok_iff.1 hat.lineRange).1
    exact ⟨⟨_, _⟩, hat.lineRange, (Except.ok.inj hstart).symm⟩
  · exact fun i r s => Text.lineRange_adjacent
  · intro i hi
    obtain ⟨above, line, after, hat⟩ := hline i hi.le
    obtain ⟨body, rfl, hbody⟩ := hat.feed_of_lt hi
    exact ⟨⟨_, _⟩, body, hat.lineRange, hat.slice, hbody⟩
  · obtain ⟨above, line, after, hat⟩ := hline last (Nat.le_refl _)
    obtain ⟨hn, he⟩ := hat.eq_of_last rfl
    exact ⟨⟨_, _⟩, line, hat.lineRange, congrArg Text.byteLength he.symm, hat.slice, hn⟩
  · exact Text.SearchResult.exists_reports (Text.pairwise_lineStarts f.chars) b
  · exact fun r hr => hr.lineIndex
  · rw [Text.lineIndex_eq_iff hb]
    constructor
    · rintro ⟨start, stop, hr, hle, hlt⟩
      exact ⟨⟨start, stop⟩, hr, hle, hlt⟩
    · rintro ⟨r, hr, hle, hlt⟩
      exact ⟨r.start, r.stop, hr, hle, hlt⟩
  · exact Text.lineIndex_of_le

/-- A blank line, a line whose character has three bytes, and an empty last line. -/
def blankLine : SourceText :=
  ⟨"a.go", "ab\n\n€\n"⟩

theorem lines_partition_blankLine :
    (⟨[blankLine]⟩ : FileStore).get? ⟨0⟩ = some blankLine ∧
    (⟨[blankLine]⟩ : FileStore).lineIndex ⟨0⟩ 5 = .ok 2 ∧
    (∃ r, (⟨[blankLine]⟩ : FileStore).lineRange ⟨0⟩ 3 = .ok r ∧ r.stop = 8) ∧
    (⟨[blankLine]⟩ : FileStore).lineIndex ⟨0⟩ 12 = .ok 3 := by
  obtain ⟨-, -, -, -, ⟨r, line, hlast, hstop, -⟩, -, hin, hbehind⟩ :=
    lines_partition ⟨[blankLine]⟩ ⟨0⟩ blankLine rfl
  have hlength : Text.byteLength blankLine.chars = 8 := by decide
  have hrange : (⟨[blankLine]⟩ : FileStore).lineRange ⟨0⟩ 2 = .ok ⟨4, 8⟩ := by decide
  have hfeeds : blankLine.chars.count '\n' = 3 := by decide
  rw [hlength] at hstop hin hbehind
  rw [hfeeds] at hlast hbehind
  exact ⟨rfl, (hin 5 (by decide) 2).2 ⟨⟨4, 8⟩, hrange, by decide, by decide⟩,
    ⟨r, hlast, hstop⟩, hbehind 12 (by decide)⟩

end FileStore

end SwitchCover

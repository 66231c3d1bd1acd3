import SwitchCover.Proofs.TokenSearch

namespace SwitchCover.Text

/-- Where a scan of a line stands: in code, in a literal with its delimiter, or behind a backslash
that escapes the next character of a literal. -/
inductive Scan where
  | code
  | literal (q : Char)
  | escape (q : Char)
deriving DecidableEq

namespace Scan

def next : Scan → Char → Scan
  | code, c => if isQuote c then literal c else code
  | literal q, c =>
    if c = q then code else if c = '\\' ∧ q ≠ backtick then escape q else literal q
  | escape q, _ => literal q

def within : Option Char → Scan
  | none => code
  | some q => literal q

end Scan

def scan (line : List Char) : Scan :=
  line.foldl Scan.next .code

variable {cs above current after : List Char}

theorem Outside.scan {opened : Option Char} (h : Outside opened line)
    (hq : ∀ q ∈ opened, isQuote q) : line.foldl Scan.next (.within opened) = .code := by
  induction h with
  | done => rfl
  | plain hc _ ih =>
    rw [List.foldl_cons, Scan.within, Scan.next, if_neg hc]
    exact ih hq
  | opening hc _ ih =>
    rw [List.foldl_cons, Scan.within, Scan.next, if_pos hc]
    refine ih ?_
    rintro _ ⟨⟩
    exact hc
  | @escape q c line hb _ ih =>
    have hne : '\\' ≠ q := by
      rintro rfl
      cases hq '\\' rfl
    rw [List.foldl_cons, List.foldl_cons, Scan.within, Scan.next, if_neg hne, if_pos ⟨rfl, hb⟩]
    exact ih hq
  | inside hc hne _ ih =>
    rw [List.foldl_cons, Scan.within, Scan.next, if_neg hne, if_neg fun he => he.2 (hc he.1)]
    exact ih hq
  | closing _ ih =>
    rw [List.foldl_cons, Scan.within, Scan.next, if_pos rfl]
    exact ih nofun

theorem outside_of_scan (opened : Option Char) (line : List Char)
    (h : line.foldl Scan.next (.within opened) = .code) : Outside opened line := by
  match opened, line with
  | none, [] => exact .done
  | some q, [] => cases h
  | none, c :: line =>
    rw [List.foldl_cons, Scan.within, Scan.next] at h
    by_cases hc : isQuote c
    · rw [if_pos hc] at h
      exact .opening hc (outside_of_scan (some c) line h)
    · rw [if_neg hc] at h
      exact .plain hc (outside_of_scan none line h)
  | some q, c :: line =>
    rw [List.foldl_cons, Scan.within, Scan.next] at h
    by_cases hc : c = q
    · subst hc
      rw [if_pos rfl] at h
      exact .closing (outside_of_scan none line h)
    · rw [if_neg hc] at h
      by_cases hb : c = '\\' ∧ q ≠ backtick
      · rw [if_pos hb] at h
        obtain ⟨rfl, hb⟩ := hb
        cases line with
        | nil => cases h
        | cons d line => exact .escape hb (outside_of_scan (some q) line h)
      · rw [if_neg hb] at h
        have hraw : c = '\\' → q = backtick := fun hs => by_contra fun hq => hb ⟨hs, hq⟩
        exact .inside hraw hc (outside_of_scan (some q) line h)

/-- A comment starts at the first two slashes that the scan meets in code. -/
theorem startsComment_iff_scan : startsComment none cs ↔
    ∃ line comment, cs = line ++ '/' :: '/' :: comment ∧ scan line = .code := by
  constructor
  · intro h
    obtain ⟨line, comment, ho, he⟩ := exists_outside h
    exact ⟨line, comment, he, ho.scan nofun⟩
  · rintro ⟨line, comment, rfl, hs⟩
    exact (outside_of_scan none line hs).startsComment nofun comment

theorem slice?_byteLength_eq_some : slice? (above ++ rest) (byteLength above) stop = some part ↔
    ∃ after, rest = part ++ after ∧ stop = byteLength (above ++ part) := by
  constructor
  · intro h
    simp only [slice?, splitAt?_byteLength] at h
    split at h
    next hle =>
      obtain ⟨⟨part, after⟩, hp, rfl⟩ := Option.map_eq_some_iff.1 h
      obtain ⟨rfl, hlen⟩ := eq_append_of_splitAt? hp
      refine ⟨after, rfl, ?_⟩
      rw [byteLength_append, hlen]
      omega
    next => cases h
  · rintro ⟨after, rfl, rfl⟩
    exact slice?_eq_some.2 ⟨above, after, (List.append_assoc ..).symm, rfl, byteLength_append ..⟩

theorem inLineComment_append (before after : List Char) :
    inLineComment (before ++ after) (byteLength before) = endsInComment before.reverse := by
  rw [inLineComment, splitAt?_byteLength]

/-- An offset stands behind the text `current` of its line. -/
structure Behind (cs : List Char) (o : Nat) (above current after : List Char) : Prop where
  text : cs = above ++ current ++ after
  offset : byteLength (above ++ current) = o
  full : FullLines above
  oneLine : '\n' ∉ current

theorem IsBoundary.exists_behind (h : IsBoundary cs o) :
    ∃ above current after, Behind cs o above current after := by
  obtain ⟨before, after, rfl, rfl⟩ := h
  obtain ⟨above, current, rfl, hf, hn⟩ := exists_fullLines before
  exact ⟨above, current, after, rfl, rfl, hf, hn⟩

namespace Behind

variable (h : Behind cs o above current after)

include h

theorem lineRange : ∃ stop, lineRange cs (lineIndex cs o) = .ok (byteLength above, stop) := by
  obtain ⟨rfl, rfl, hf, hn⟩ := h
  obtain ⟨stop, hrange, -⟩ := hf.lineRange hn after
  rw [FullLines.lineIndex hn]
  exact ⟨stop, hrange⟩

theorem slice : slice? cs (byteLength above) o = some current := by
  rw [h.text, ← h.offset, List.append_assoc]
  exact slice?_byteLength_eq_some.2 ⟨after, rfl, rfl⟩

theorem inLineComment : inLineComment cs o = startsComment none current := by
  obtain ⟨rfl, rfl, hf, hn⟩ := h
  rw [inLineComment_append, endsInComment_of_fullLines hf hn]

theorem slashes_iff : q + 2 ≤ o ∧ slice? cs (byteLength above) q = some line ∧
      slice? cs q (q + 2) = some ['/', '/'] ↔
    ∃ comment, current = line ++ '/' :: '/' :: comment ∧ q = byteLength (above ++ line) := by
  have htwo : byteLength ['/', '/'] = 2 := rfl
  rw [h.text, ← h.offset, List.append_assoc]
  constructor
  · rintro ⟨hle, hline, hslashes⟩
    obtain ⟨rest, hrest, rfl⟩ := slice?_byteLength_eq_some.1 hline
    rw [hrest, ← List.append_assoc] at hslashes
    obtain ⟨after', rfl, -⟩ := slice?_byteLength_eq_some.1 hslashes
    rw [← List.append_assoc] at hrest
    have hlen : byteLength (line ++ ['/', '/']) ≤ byteLength current := by
      simp only [byteLength_append, htwo] at hle ⊢
      omega
    obtain ⟨comment, rfl, -⟩ := exists_append_of_byteLength_le hrest.symm hlen
    exact ⟨comment, by simp, rfl⟩
  · rintro ⟨comment, rfl, rfl⟩
    refine ⟨?_, slice?_byteLength_eq_some.2 ⟨'/' :: '/' :: comment ++ after, by simp, rfl⟩, ?_⟩
    · have hlen : byteLength ('/' :: '/' :: comment) = 2 + byteLength comment :=
        byteLength_append ['/', '/'] comment
      simp only [byteLength_append, hlen]
      omega
    · rw [List.append_assoc, ← List.append_assoc above]
      refine slice?_byteLength_eq_some.2 ⟨comment ++ after, rfl, ?_⟩
      rw [byteLength_append _ ['/', '/'], htwo]

end Behind

/-- The text of a line before an offset decides the test. -/
theorem inLineComment_of_slice? (hr : lineRange cs (lineIndex cs o) = .ok (start, stop))
    (hs : slice? cs start o = some text) : inLineComment cs o = startsComment none text := by
  obtain ⟨above, current, after, h⟩ := (isBoundary_of_slice? hs).2.1.exists_behind
  obtain ⟨stop', hrange⟩ := h.lineRange
  cases hr.symm.trans hrange
  cases hs.symm.trans h.slice
  exact h.inLineComment

theorem inLineComment_mono (ho : IsBoundary cs o) (ho' : IsBoundary cs o') (hle : o ≤ o')
    (hline : lineIndex cs o' = lineIndex cs o) (hc : inLineComment cs o) : inLineComment cs o' := by
  obtain ⟨before, rest, rfl, rfl⟩ := ho
  obtain ⟨before', after, he, rfl⟩ := ho'
  obtain ⟨mid, rfl, rfl⟩ := exists_append_of_byteLength_le he hle
  have hmid : '\n' ∉ mid := by
    have hcount := lineIndex_byteLength (before ++ mid) after
    rw [List.append_assoc, hline, lineIndex_byteLength, List.count_append] at hcount
    exact List.count_eq_zero.1 (by omega)
  rw [inLineComment_append] at hc
  rw [← List.append_assoc, inLineComment_append, List.reverse_append]
  exact endsInComment_append hc hmid

/-- An offset is in a line comment if and only if two slashes stand before it on its line where the
scan of the line is in code. Only the text of the line before the offset matters, and the rest of
the line is in the comment as well. -/
theorem inLineComment_scanned (cs : List Char) (o : Nat) (ho : IsBoundary cs o) :
    ∃ start stop text, lineRange cs (lineIndex cs o) = .ok (start, stop) ∧
      slice? cs start o = some text ∧
      (inLineComment cs o = true ↔ ∃ q line, q + 2 ≤ o ∧ slice? cs start q = some line ∧
        slice? cs q (q + 2) = some ['/', '/'] ∧ scan line = .code) ∧
      (∀ cs' o' start' stop', lineRange cs' (lineIndex cs' o') = .ok (start', stop') →
        slice? cs' start' o' = some text → inLineComment cs' o' = inLineComment cs o) ∧
      ∀ o', IsBoundary cs o' → o ≤ o' → lineIndex cs o' = lineIndex cs o →
        inLineComment cs o = true → inLineComment cs o' = true := by
  obtain ⟨above, current, after, h⟩ := ho.exists_behind
  obtain ⟨stop, hrange⟩ := h.lineRange
  refine ⟨byteLength above, stop, current, hrange, h.slice, ?_, ?_, ?_⟩
  · rw [h.inLineComment, startsComment_iff_scan]
    constructor
    · rintro ⟨line, comment, he, hs⟩
      obtain ⟨hq, hline, hslashes⟩ := h.slashes_iff.2 ⟨comment, he, rfl⟩
      exact ⟨_, line, hq, hline, hslashes, hs⟩
    · rintro ⟨q, line, hq, hline, hslashes, hs⟩
      obtain ⟨comment, he, -⟩ := h.slashes_iff.1 ⟨hq, hline, hslashes⟩
      exact ⟨line, comment, he, hs⟩
  · intro cs' o' start' stop' hr hs
    rw [inLineComment_of_slice? hr hs, h.inLineComment]
  · exact fun o' ho' hle hline => inLineComment_mono ho ho' hle hline

/-- An escaped quote and slashes in literals come before the comment. -/
def quotedSlashes : List Char :=
  "a\ns := \"\\\"//\" + \x60\\\x60 // k".toList

theorem inLineComment_scanned_quotedSlashes :
    IsBoundary quotedSlashes 22 ∧ IsBoundary quotedSlashes 24 ∧
      lineRange quotedSlashes (lineIndex quotedSlashes 22) = .ok (2, 24) ∧
      inLineComment quotedSlashes 22 = true ∧ inLineComment quotedSlashes 24 = true := by
  have hb : IsBoundary quotedSlashes 22 := by decide
  have hb' : IsBoundary quotedSlashes 24 := by decide
  have hrange : lineRange quotedSlashes (lineIndex quotedSlashes 22) = .ok (2, 24) := by decide
  obtain ⟨start, stop, text, hline, -, hiff, -, hlater⟩ := inLineComment_scanned quotedSlashes 22 hb
  cases hline.symm.trans hrange
  have hc : inLineComment quotedSlashes 22 = true :=
    hiff.2 ⟨20, _, Nat.le_refl _, rfl, by decide, by decide⟩
  exact ⟨hb, hb', hrange, hc, hlater 24 hb' (by decide) (by decide) hc⟩

end SwitchCover.Text

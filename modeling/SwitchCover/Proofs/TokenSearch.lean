import Mathlib.Order.Bounds.Basic
import SwitchCover.Proofs.Positions

namespace SwitchCover.Text

def IdentsMeet (xs ys : List Char) : Prop :=
  ∃ c ∈ xs.getLast?, ∃ d ∈ ys.head?, isIdentChar c ∧ isIdentChar d

/-- No literal is open behind the characters, where `opened` is the delimiter of the literal that
is open before them. -/
inductive Outside : Option Char → List Char → Prop where
  | done : Outside none []
  | plain (hq : ¬isQuote c) (h : Outside none cs) : Outside none (c :: cs)
  | opening (hq : isQuote q) (h : Outside (some q) cs) : Outside none (q :: cs)
  | escape (hq : q ≠ backtick) (h : Outside (some q) cs) : Outside (some q) ('\\' :: c :: cs)
  | inside (hc : c = '\\' → q = backtick) (hne : c ≠ q) (h : Outside (some q) cs) :
    Outside (some q) (c :: cs)
  | closing (h : Outside none cs) : Outside (some q) (q :: cs)

/-- Two slashes outside of literals stand on the last line of a text. -/
def InComment (before : List Char) : Prop :=
  ∃ above code comment, before = above ++ (code ++ '/' :: '/' :: comment) ∧ FullLines above ∧
    '\n' ∉ code ++ comment ∧ Outside none code

/-- The needle stands at a byte offset of the text, not as a part of a longer identifier and not in
a line comment. -/
def IsTokenAt (cs needle : List Char) (n : Nat) : Prop :=
  ∃ before after, cs = before ++ needle ++ after ∧ byteLength before = n ∧
    ¬IdentsMeet before needle ∧ ¬IdentsMeet needle after ∧ ¬InComment before

/-- Texts of tokens: words of identifier characters, and texts with other characters at both
ends. -/
structure TokenText (needle : List Char) : Prop where
  nonempty : needle ≠ []
  oneLine : '\n' ∉ needle
  ends : (∀ c ∈ needle, isIdentChar c) ∨
    (∀ c ∈ needle.head?, ¬isIdentChar c) ∧ ∀ c ∈ needle.getLast?, ¬isIdentChar c

def Stands (needle passed rest : List Char) : Prop :=
  needle <+: rest ∧ standsAlone needle passed (rest.drop needle.length)

/-- Where the first token is found among the places of `rest`, tried one by one. -/
inductive FirstToken (needle : List Char) : List Char → List Char → Option (List Char) → Prop where
  | here (h : Stands needle passed rest) : FirstToken needle passed rest (some passed)
  | later (hr : ¬Stands needle passed (c :: rest))
      (h : FirstToken needle (c :: passed) rest found) :
    FirstToken needle passed (c :: rest) found
  | nowhere (hr : ¬Stands needle passed []) : FirstToken needle passed [] none

variable {cs needle passed rest xs ys : List Char}

theorem headIsIdent_iff : headIsIdent cs ↔ ∃ c ∈ cs.head?, isIdentChar c := by
  cases cs with
  | nil => simp [headIsIdent]
  | cons c cs => simp [headIsIdent]

theorem identsMeet_iff : IdentsMeet xs ys ↔ headIsIdent xs.reverse ∧ headIsIdent ys := by
  rw [headIsIdent_iff, headIsIdent_iff, List.head?_reverse]
  constructor
  · rintro ⟨c, hc, d, hd, hci, hdi⟩
    exact ⟨⟨c, hc, hci⟩, d, hd, hdi⟩
  · rintro ⟨⟨c, hc, hci⟩, d, hd, hdi⟩
    exact ⟨c, hc, d, hd, hci, hdi⟩

theorem Outside.startsComment {opened : Option Char} (h : Outside opened code)
    (hq : ∀ q ∈ opened, isQuote q) (comment : List Char) :
    startsComment opened (code ++ '/' :: '/' :: comment) := by
  induction h with
  | done => rfl
  | plain hc _ ih =>
    rw [List.cons_append, Text.startsComment, if_neg hc, ih hq, Bool.or_true]
  | @opening q code hc _ ih =>
    rw [List.cons_append, Text.startsComment, if_pos hc]
    refine ih ?_
    rintro _ ⟨⟩
    exact hc
  | escape hb _ ih =>
    rw [List.cons_append, List.cons_append, Text.startsComment, if_pos ⟨hb, rfl⟩]
    exact ih hq
  | @inside c q code hc hne _ ih =>
    have hb : ¬(q ≠ backtick ∧ c = '\\') := fun hb => hb.1 (hc hb.2)
    rw [List.cons_append, Text.startsComment.eq_def]
    simp only [if_neg hb, if_neg hne]
    exact ih hq
  | @closing code q _ ih =>
    have hb : ¬(q ≠ backtick ∧ q = '\\') := by
      rintro ⟨-, rfl⟩
      cases hq '\\' rfl
    rw [List.cons_append, Text.startsComment.eq_def]
    simp only [if_neg hb, if_pos]
    exact ih nofun

theorem exists_outside {opened : Option Char} (h : startsComment opened cs) :
    ∃ code comment, Outside opened code ∧ cs = code ++ '/' :: '/' :: comment := by
  fun_induction startsComment opened cs with
  | case1 => cases h
  | case2 c cs hc ih =>
    obtain ⟨code, comment, ho, rfl⟩ := ih h
    exact ⟨c :: code, comment, .opening hc ho, rfl⟩
  | case3 c cs hc ih =>
    rcases Bool.or_eq_true_iff.1 h with h | h
    · simp only [Bool.and_eq_true, beq_iff_eq, List.head?_eq_some_iff] at h
      obtain ⟨rfl, comment, rfl⟩ := h
      exact ⟨[], comment, .done, rfl⟩
    · obtain ⟨code, comment, ho, rfl⟩ := ih h
      exact ⟨c :: code, comment, .plain hc ho, rfl⟩
  | case4 => cases h
  | case5 q c hc d cs ih =>
    obtain ⟨code, comment, ho, rfl⟩ := ih h
    obtain ⟨hb, rfl⟩ := hc
    exact ⟨'\\' :: d :: code, comment, .escape hb ho, rfl⟩
  | case6 q c cs hc ih =>
    obtain ⟨code, comment, ho, rfl⟩ := ih h
    by_cases he : c = q
    · subst he
      rw [if_pos rfl] at ho
      exact ⟨c :: code, comment, .closing ho, rfl⟩
    · rw [if_neg he] at ho
      have hb : c = '\\' → q = backtick := fun hs => by_contra fun hq => hc ⟨hq, hs⟩
      exact ⟨c :: code, comment, .inside hb he ho, rfl⟩

theorem endsInComment_of_fullLines (h : FullLines above) (hc : '\n' ∉ current) :
    endsInComment (above ++ current).reverse = startsComment none current := by
  have hall : ∀ c ∈ current.reverse, decide (c ≠ '\n') = true := by
    intro c hm
    rw [List.mem_reverse] at hm
    exact decide_eq_true fun he => hc (he ▸ hm)
  have habove : above.reverse.takeWhile (· ≠ '\n') = [] := by
    cases h with
    | none => rfl
    | feed xs => simp
  rw [endsInComment, List.reverse_append, List.takeWhile_append_of_pos hall, habove,
    List.append_nil, List.reverse_reverse]

theorem endsInComment_iff : endsInComment before.reverse ↔ InComment before := by
  constructor
  · intro h
    obtain ⟨above, current, rfl, hf, hc⟩ := exists_fullLines before
    rw [endsInComment_of_fullLines hf hc] at h
    obtain ⟨code, comment, ho, rfl⟩ := exists_outside h
    exact ⟨above, code, comment, rfl, hf, by simpa using hc, ho⟩
  · rintro ⟨above, code, comment, rfl, hf, hc, ho⟩
    rw [endsInComment_of_fullLines hf (by simpa using hc)]
    exact ho.startsComment nofun comment

theorem standsAlone_iff : standsAlone needle before.reverse after ↔
    ¬IdentsMeet before needle ∧ ¬IdentsMeet needle after ∧ ¬InComment before := by
  rw [identsMeet_iff, identsMeet_iff, ← endsInComment_iff]
  simp only [standsAlone, Bool.and_eq_true, Bool.not_eq_true', Bool.and_eq_false_iff, not_and_or,
    Bool.not_eq_true, and_assoc]
  grind

theorem endsInComment_append (h : endsInComment passed) (hn : '\n' ∉ xs) :
    endsInComment (xs.reverse ++ passed) := by
  rw [← List.reverse_reverse passed, endsInComment_iff] at h
  obtain ⟨above, code, comment, he, hf, hc, ho⟩ := h
  rw [← List.reverse_reverse passed, ← List.reverse_append, endsInComment_iff, he]
  refine ⟨above, code, comment ++ xs, by simp, hf, ?_, ho⟩
  rw [← List.append_assoc, List.mem_append]
  exact not_or.2 ⟨hc, hn⟩

/-- No token overlaps an occurrence that is none. -/
theorem TokenText.not_stands (h : TokenText needle) (hp : needle <+: xs ++ ys)
    (hr : ¬Stands needle passed (xs ++ ys)) (hlen : xs.length < needle.length) :
    ¬Stands needle (xs.reverse ++ passed) ys := by
  intro hs
  have hx : xs <+: needle := List.prefix_of_prefix_length_le (List.prefix_append xs ys) hp hlen.le
  have hrej : standsAlone needle passed ((xs ++ ys).drop needle.length) = false := by
    rw [← Bool.not_eq_true]
    exact fun ha => hr ⟨hp, ha⟩
  rcases h.ends with hw | ⟨hfirst, hlast⟩
  · -- A word would be preceded by one of its own characters.
    cases xs using List.reverseRecOn with
    | nil => exact hr hs
    | append_singleton xs c =>
      have hc : headIsIdent ((xs ++ [c]).reverse ++ passed) :=
        headIsIdent_iff.2 ⟨c, by simp, hw c (hx.subset (by simp))⟩
      have hn : headIsIdent needle :=
        headIsIdent_iff.2 ⟨_, List.head?_eq_some_head h.nonempty, hw _ (List.head_mem _)⟩
      have ha := hs.2
      rw [standsAlone, hc, hn] at ha
      cases ha
  · -- Any other text was rejected for a comment, which reaches to the end of the line.
    have hn : headIsIdent needle = false := by
      rw [← Bool.not_eq_true, headIsIdent_iff]
      exact fun ⟨c, hc, hci⟩ => hfirst c hc hci
    have hn' : headIsIdent needle.reverse = false := by
      rw [← Bool.not_eq_true, headIsIdent_iff, List.head?_reverse]
      exact fun ⟨c, hc, hci⟩ => hlast c hc hci
    have hcomment : endsInComment passed := by simpa [standsAlone, hn, hn'] using hrej
    have hlater := endsInComment_append hcomment (mt (hx.subset ·) h.oneLine)
    have ha := hs.2
    simp [standsAlone, hlater] at ha

/-- The search skips no token. -/
theorem TokenText.searchFrom (h : TokenText needle)
    (hskip : ∀ xs ys, rest = xs ++ ys → xs.length < skip →
      ¬Stands needle (xs.reverse ++ passed) ys) :
    FirstToken needle passed rest (searchFrom needle passed skip rest) := by
  fun_induction Text.searchFrom needle passed skip rest with
  | case1 passed hc => exact absurd hc.1 h.nonempty
  | case2 passed hc => exact .nowhere fun hs => h.nonempty (List.prefix_nil.1 hs.1)
  | case3 passed skip => exact .nowhere (hskip [] [] rfl (Nat.succ_pos _))
  | case4 passed skip c rest ih =>
    refine .later (hskip [] _ rfl (Nat.succ_pos _)) (ih ?_)
    rintro xs ys rfl hlen
    simpa using hskip (c :: xs) ys rfl (by simpa using hlen)
  | case5 passed c rest hp ha => exact .here ⟨List.isPrefixOf_iff_prefix.1 hp, ha⟩
  | case6 passed c rest hp ha ih =>
    have hp := List.isPrefixOf_iff_prefix.1 hp
    have hr : ¬Stands needle passed (c :: rest) := fun hs => ha hs.2
    refine .later hr (ih ?_)
    rintro xs ys rfl hlen
    have hlen : (c :: xs).length < needle.length := by
      rw [List.length_cons]
      omega
    have hno := h.not_stands hp hr hlen
    simpa using hno
  | case7 passed c rest hp ih =>
    refine .later (fun hs => hp (List.isPrefixOf_iff_prefix.2 hs.1)) (ih ?_)
    rintro xs ys rfl hlen
    exact absurd hlen (Nat.not_lt_zero _)

namespace FirstToken

theorem eq_none (h : FirstToken needle passed rest none) (he : rest = xs ++ ys) :
    ¬Stands needle (xs.reverse ++ passed) ys := by
  generalize hf : none = found at h
  induction h generalizing xs with
  | here => cases hf
  | later hr _ ih =>
    cases xs with
    | nil =>
      cases he
      exact hr
    | cons d xs =>
      cases he
      rw [List.reverse_cons, List.append_assoc]
      exact ih rfl hf
  | nowhere hr =>
    obtain ⟨rfl, rfl⟩ := List.nil_eq_append_iff.1 he
    exact hr

theorem eq_some (h : FirstToken needle passed rest (some found)) :
    ∃ mid after, rest = mid ++ after ∧ found = mid.reverse ++ passed ∧ Stands needle found after ∧
      ∀ xs ys, rest = xs ++ ys → Stands needle (xs.reverse ++ passed) ys →
        mid.length ≤ xs.length := by
  generalize hf : some found = result at h
  induction h with
  | here hs =>
    cases hf
    exact ⟨[], _, rfl, rfl, hs, fun xs _ _ _ => Nat.zero_le _⟩
  | later hr _ ih =>
    obtain ⟨mid, after, rfl, rfl, hs, hfirst⟩ := ih hf
    refine ⟨_ :: mid, after, rfl, by simp, hs, ?_⟩
    intro xs ys he hxs
    cases xs with
    | nil =>
      cases he
      exact absurd hxs hr
    | cons d xs =>
      obtain ⟨rfl, hmid⟩ := List.cons.inj he
      rw [List.reverse_cons, List.append_assoc] at hxs
      exact Nat.succ_le_succ (hfirst xs ys hmid hxs)
  | nowhere => cases hf

end FirstToken

theorem isTokenAt_append_iff {before : List Char} :
    byteLength before ≤ n ∧ IsTokenAt (before ++ rest) needle n ↔
      ∃ xs ys, rest = xs ++ ys ∧ n = byteLength (before ++ xs) ∧
        Stands needle (xs.reverse ++ before.reverse) ys := by
  constructor
  · rintro ⟨hle, before', after, he, rfl, hb, ha, hc⟩
    rw [List.append_assoc] at he
    obtain ⟨xs, rfl, rfl⟩ := exists_append_of_byteLength_le he hle
    refine ⟨xs, needle ++ after, rfl, rfl, List.prefix_append .., ?_⟩
    rw [List.drop_left, ← List.reverse_append]
    exact standsAlone_iff.2 ⟨hb, ha, hc⟩
  · rintro ⟨xs, ys, rfl, rfl, ⟨after, rfl⟩, hs⟩
    rw [List.drop_left, ← List.reverse_append] at hs
    obtain ⟨hb, ha, hc⟩ := standsAlone_iff.1 hs
    refine ⟨?_, before ++ xs, after, by simp, rfl, hb, ha, hc⟩
    rw [byteLength_append]
    exact Nat.le_add_right _ _

theorem findToken_append (before rest needle : List Char) :
    findToken (before ++ rest) (byteLength before) needle =
      (searchFrom needle before.reverse 0 rest).map byteLength := by
  rw [findToken, splitAt?_byteLength]

theorem TokenText.firstToken (h : TokenText needle) (passed rest : List Char) :
    FirstToken needle passed rest (Text.searchFrom needle passed 0 rest) :=
  h.searchFrom fun _ _ _ hlen => absurd hlen (Nat.not_lt_zero _)

theorem TokenText.findToken_eq_none (h : TokenText needle) (hs : IsBoundary cs start)
    (hf : findToken cs start needle = none) (hle : start ≤ n) : ¬IsTokenAt cs needle n := by
  obtain ⟨before, rest, rfl, rfl⟩ := hs
  rw [findToken_append, Option.map_eq_none_iff] at hf
  have hfirst := h.firstToken before.reverse rest
  rw [hf] at hfirst
  intro ht
  obtain ⟨xs, ys, he, -, hxs⟩ := isTokenAt_append_iff.1 ⟨hle, ht⟩
  exact hfirst.eq_none he hxs

theorem TokenText.isLeast_findToken (h : TokenText needle) (hs : IsBoundary cs start)
    (hf : findToken cs start needle = some n) :
    IsLeast {p | start ≤ p ∧ IsTokenAt cs needle p} n := by
  obtain ⟨before, rest, rfl, rfl⟩ := hs
  rw [findToken_append] at hf
  obtain ⟨found, hfound, rfl⟩ := Option.map_eq_some_iff.1 hf
  have hfirst := h.firstToken before.reverse rest
  rw [hfound] at hfirst
  obtain ⟨mid, after, rfl, rfl, hstands, hleast⟩ := hfirst.eq_some
  rw [← List.reverse_append, byteLength_reverse]
  constructor
  · exact isTokenAt_append_iff.2 ⟨mid, after, rfl, rfl, hstands⟩
  · rintro p hp
    obtain ⟨xs, ys, he, rfl, hxs⟩ := isTokenAt_append_iff.1 hp
    have hprefix : mid <+: xs :=
      List.prefix_of_prefix_length_le ⟨after, he⟩ (List.prefix_append xs ys)
        (hleast xs ys he hxs)
    obtain ⟨zs, rfl⟩ := hprefix
    rw [← List.append_assoc, byteLength_append (before ++ mid)]
    exact Nat.le_add_right _ _

/-- The search finds the first token at or behind its start, and fails only if there is none. -/
theorem findToken_least (cs needle : List Char) (start : Nat) (hs : IsBoundary cs start)
    (hn : TokenText needle) :
    (∀ n, findToken cs start needle = some n ↔
      IsLeast {p | start ≤ p ∧ IsTokenAt cs needle p} n) ∧
    (findToken cs start needle = none ↔ ∀ p, start ≤ p → ¬IsTokenAt cs needle p) := by
  refine ⟨fun n => ⟨hn.isLeast_findToken hs, fun hleast => ?_⟩,
    fun hf p => hn.findToken_eq_none hs hf, fun hno => ?_⟩
  · cases hf : findToken cs start needle with
    | none => exact absurd hleast.1.2 (hn.findToken_eq_none hs hf hleast.1.1)
    | some m => rw [(hn.isLeast_findToken hs hf).unique hleast]
  · cases hf : findToken cs start needle with
    | none => rfl
    | some m =>
      obtain ⟨hle, ht⟩ := (hn.isLeast_findToken hs hf).1
      exact absurd ht (hno m hle)

/-- Occurrences that overlap in a longer word and in a comment come before the token. -/
def overlapping : List Char :=
  "aaa // aa\naa".toList

theorem findToken_least_overlapping :
    IsBoundary overlapping 1 ∧ TokenText ['a', 'a'] ∧
      IsLeast {p | 1 ≤ p ∧ IsTokenAt overlapping ['a', 'a'] p} 10 := by
  have hb : IsBoundary overlapping 1 := by decide
  have ha : isIdentChar 'a' := by decide
  have hn : TokenText ['a', 'a'] := ⟨by decide, by decide, .inl (by simp [ha])⟩
  have hfound : findToken overlapping 1 ['a', 'a'] = some 10 := by decide
  exact ⟨hb, hn, ((findToken_least overlapping ['a', 'a'] 1 hb hn).1 10).1 hfound⟩

end SwitchCover.Text

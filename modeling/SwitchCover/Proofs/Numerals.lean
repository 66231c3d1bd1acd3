import Mathlib.Data.Nat.Digits.Defs
import Mathlib.Tactic.IntervalCases
import Mathlib.Tactic.Ring
import SwitchCover.IntLiteral

namespace SwitchCover.IntLiteral

def markLetters : List (Char × Radix) :=
  [('x', .hexadecimal), ('X', .hexadecimal), ('o', .octal), ('O', .octal), ('b', .binary),
    ('B', .binary)]

inductive Marks : List Char → Radix → List Char → Prop where
  | letter (h : (m, r) ∈ markLetters) : Marks ('0' :: m :: body) r body
  | zero (hne : body ≠ []) (h : ∀ c ∈ body, c.isDigit ∨ c = '_') : Marks ('0' :: body) .octal body
  | nothing (h : ∀ m body, cs = '0' :: m :: body →
      m ∉ markLetters.map Prod.fst ∧ ¬∀ c ∈ m :: body, c.isDigit ∨ c = '_') :
    Marks cs .decimal cs

/-- One or more digits of a base, the highest first, and their positional value. Letters count in
either case. -/
def Digits (base : Nat) (cs : List Char) (n : Nat) : Prop :=
  ∃ ds : List Nat, ds ≠ [] ∧ (∀ d ∈ ds, d < base) ∧
    cs.map Char.toLower = ds.map Nat.digitChar ∧ Nat.ofDigits base ds.reverse = n

inductive Numeral (base : Nat) : List Char → Int → Prop where
  | unsigned (h : Digits base cs n) : Numeral base cs n
  | plus (h : Digits base cs n) : Numeral base ('+' :: cs) n
  | minus (h : Digits base cs n) : Numeral base ('-' :: cs) (-n)

def Denotes (text : String) (v : Int) : Prop :=
  text.toList.head? ≠ some '-' ∧
    ∃ r body, Marks text.toList r body ∧ Numeral r.base (body.filter (· ≠ '_')) v

/-- The digits of a number in a base, letters in either case and separators anywhere. -/
def Writes (base n : Nat) (cs : List Char) : Prop :=
  (cs.filter (· ≠ '_')).map Char.toLower = Nat.toDigits base n

/-- The ways to write a number as a literal. -/
inductive Spells (n : Nat) : List Char → Prop where
  | letter (h : (m, r) ∈ markLetters) (hw : Writes (Radix.base r) n body) :
    Spells n ('0' :: m :: body)
  | zero (hw : Writes 8 n body) : Spells n ('0' :: body)
  | decimal (hn : 0 < n) (hw : Writes 10 n body) : Spells n body

variable {c : Char} {cs body : List Char} {base : Nat}

theorem all_isDigitOrSeparator :
    cs.all isDigitOrSeparator ↔ ∀ c ∈ cs, c.isDigit ∨ c = '_' := by
  simp [isDigitOrSeparator]

theorem ofChars_zero (h : m ∉ markLetters.map Prod.fst) : ofChars ('0' :: m :: body) =
    if (m :: body).all isDigitOrSeparator then ⟨.octal, m :: body⟩
    else ⟨.decimal, '0' :: m :: body⟩ := by
  rw [ofChars]
  all_goals
    rintro rfl
    exact h (by decide)

theorem ofChars_nothing (h : ∀ m body, cs ≠ '0' :: m :: body) : ofChars cs = ⟨.decimal, cs⟩ := by
  rw [ofChars]
  all_goals
    intros
    exact h _ _ ‹_›

theorem ofChars_of_marks (h : Marks cs r body) : ofChars cs = ⟨r, body⟩ := by
  cases h with
  | letter h =>
    simp only [markLetters, List.mem_cons, Prod.mk.injEq, List.not_mem_nil, or_false] at h
    rcases h with ⟨rfl, rfl⟩ | ⟨rfl, rfl⟩ | ⟨rfl, rfl⟩ | ⟨rfl, rfl⟩ | ⟨rfl, rfl⟩ | ⟨rfl, rfl⟩ <;>
      rfl
  | zero hne h =>
    cases body with
    | nil => exact absurd rfl hne
    | cons c body =>
      have hletter : ∀ m ∈ markLetters.map Prod.fst, ¬(m.isDigit ∨ m = '_') := by
        simp [markLetters]
      have hc : c ∉ markLetters.map Prod.fst :=
        fun hm => hletter c hm (h c List.mem_cons_self)
      rw [ofChars_zero hc, if_pos (all_isDigitOrSeparator.2 h)]
  | nothing h =>
    by_cases hz : ∃ m body, cs = '0' :: m :: body
    · obtain ⟨m, body, rfl⟩ := hz
      obtain ⟨hm, hno⟩ := h m body rfl
      rw [ofChars_zero hm, if_neg (mt all_isDigitOrSeparator.1 hno)]
    · exact ofChars_nothing fun m body he => hz ⟨m, body, he⟩

theorem exists_marks (cs : List Char) : ∃ r body, Marks cs r body := by
  by_cases hz : ∃ m body, cs = '0' :: m :: body
  · obtain ⟨m, body, rfl⟩ := hz
    by_cases hm : m ∈ markLetters.map Prod.fst
    · obtain ⟨⟨m, r⟩, hr, rfl⟩ := List.mem_map.1 hm
      exact ⟨r, body, .letter hr⟩
    · by_cases hd : ∀ c ∈ m :: body, c.isDigit ∨ c = '_'
      · exact ⟨.octal, m :: body, .zero (List.cons_ne_nil _ _) hd⟩
      · refine ⟨.decimal, _, .nothing ?_⟩
        rintro m' body' he
        cases he
        exact ⟨hm, hd⟩
  · exact ⟨.decimal, cs, .nothing fun m body he => absurd ⟨m, body, he⟩ hz⟩

theorem marks_iff : Marks cs r body ↔ ofChars cs = ⟨r, body⟩ := by
  refine ⟨ofChars_of_marks, fun h => ?_⟩
  obtain ⟨r', body', h'⟩ := exists_marks cs
  rw [ofChars_of_marks h'] at h
  cases h
  exact h'

theorem not_le_ascii {d : Char} (hc : ¬c.toNat < 128) (hd : d.toNat < 128) : ¬c.val ≤ d.val :=
  fun hle => hc (Nat.lt_of_le_of_lt (UInt32.le_iff_toNat_le.1 hle) hd)

theorem toLower_of_not_ascii (hc : ¬c.toNat < 128) : c.toLower = c :=
  dif_neg fun h => not_le_ascii (d := 'Z') hc (by decide) h.2

theorem digitValue?_eq_some_iff (hd : d < 16) :
    digitValue? c = some d ↔ c.toLower = Nat.digitChar d := by
  by_cases hc : c.toNat < 128
  · -- There are few enough ASCII characters to try them all.
    have hall : ∀ n < 128, ∀ d < 16,
        digitValue? (Char.ofNat n) = some d ↔ (Char.ofNat n).toLower = Nat.digitChar d := by
      decide +kernel
    have h := hall c.toNat hc d hd
    rwa [Char.ofNat_toNat] at h
  · have hdigit : c.isDigit = false :=
      Bool.and_eq_false_iff.2 (.inr (decide_eq_false (not_le_ascii (d := '9') hc (by decide))))
    have hlower : c.isLower = false :=
      Bool.and_eq_false_iff.2 (.inr (decide_eq_false (not_le_ascii (d := 'z') hc (by decide))))
    have hupper : c.isUpper = false :=
      decide_eq_false fun h => not_le_ascii (d := 'Z') hc (by decide) h.2
    have hnone : digitValue? c = none := by simp [digitValue?, hdigit, hlower, hupper]
    have hne : c ≠ Nat.digitChar d := by
      rintro rfl
      apply hc
      interval_cases d <;> decide
    simp [hnone, toLower_of_not_ascii hc, hne]

theorem isDigit_of_toLower (h : c.toLower.isDigit) : c.isDigit := by
  by_cases hc : c.toNat < 128
  · have hall : ∀ n < 128, (Char.ofNat n).toLower.isDigit → (Char.ofNat n).isDigit := by decide
    have hc := hall c.toNat hc
    rw [Char.ofNat_toNat] at hc
    exact hc h
  · rwa [toLower_of_not_ascii hc] at h

/-- Digits that follow the value `acc` shift it by their number. -/
theorem digitsValue?_eq_some_iff (hb : base ≤ 16) : digitsValue? base acc cs = some n ↔
    ∃ ds : List Nat, (∀ d ∈ ds, d < base) ∧ cs.map Char.toLower = ds.map Nat.digitChar ∧
      acc * base ^ ds.length + Nat.ofDigits base ds.reverse = n := by
  induction cs generalizing acc with
  | nil => simp [digitsValue?]
  | cons c cs ih =>
    have hshift (d : Nat) (ds : List Nat) :
        (acc * base + d) * base ^ ds.length + Nat.ofDigits base ds.reverse =
          acc * base ^ (d :: ds).length + Nat.ofDigits base (d :: ds).reverse := by
      rw [List.reverse_cons, Nat.ofDigits_append, Nat.ofDigits_singleton, List.length_reverse,
        List.length_cons]
      ring
    rw [digitsValue?]
    constructor
    · intro h
      cases hd : digitValue? c with
      | none => simp [hd] at h
      | some d =>
        simp only [hd, Option.ite_none_right_eq_some] at h
        obtain ⟨hlt, h⟩ := h
        obtain ⟨ds, hds, hcs, hn⟩ := ih.1 h
        refine ⟨d :: ds, List.forall_mem_cons.2 ⟨hlt, hds⟩, ?_, (hshift d ds).symm.trans hn⟩
        rw [List.map_cons, List.map_cons, hcs,
          (digitValue?_eq_some_iff (Nat.lt_of_lt_of_le hlt hb)).1 hd]
    · rintro ⟨ds, hds, hcs, hn⟩
      cases ds with
      | nil => cases hcs
      | cons d ds =>
        obtain ⟨hlt, hds⟩ := List.forall_mem_cons.1 hds
        obtain ⟨hc, hcs⟩ := List.cons.inj hcs
        rw [(digitValue?_eq_some_iff (Nat.lt_of_lt_of_le hlt hb)).2 hc]
        simp only [if_pos hlt]
        exact ih.2 ⟨ds, hds, hcs, (hshift d ds).trans hn⟩

theorem magnitude?_eq_some_iff (hb : base ≤ 16) :
    magnitude? base cs = some n ↔ Digits base cs n := by
  cases cs with
  | nil =>
    simp [magnitude?, Digits]
  | cons c cs =>
    rw [magnitude?, digitsValue?_eq_some_iff hb, Digits]
    simp only [Nat.zero_mul, Nat.zero_add]
    refine exists_congr fun ds => ⟨?_, And.right⟩
    rintro ⟨hds, hcs, hn⟩
    refine ⟨?_, hds, hcs, hn⟩
    rintro rfl
    cases hcs

theorem not_digits_sign (hb : base ≤ 16) (hc : c = '+' ∨ c = '-') : ¬Digits base (c :: cs) n := by
  intro h
  have hm := (magnitude?_eq_some_iff hb).2 h
  rcases hc with rfl | rfl
  · cases hm
  · cases hm

theorem map_magnitude?_eq_some_iff (hb : base ≤ 16) {f : Int → Int} :
    (do let n ← magnitude? base cs; pure (n : Int) : Option Int).map f = some v ↔
      ∃ n : Nat, Digits base cs n ∧ f n = v := by
  rw [Option.map_eq_some_iff]
  constructor
  · rintro ⟨u, hu, rfl⟩
    obtain ⟨n, hn, hu⟩ := Option.bind_eq_some_iff.1 hu
    cases hu
    exact ⟨n, (magnitude?_eq_some_iff hb).1 hn, rfl⟩
  · rintro ⟨n, hn, rfl⟩
    rw [(magnitude?_eq_some_iff hb).2 hn]
    exact ⟨n, rfl, rfl⟩

theorem signedValue?_eq_some_iff (hb : base ≤ 16) :
    signedValue? base cs = some v ↔ Numeral base cs v := by
  rw [signedValue?.eq_def]
  split
  next cs =>
    rw [map_magnitude?_eq_some_iff hb]
    constructor
    · rintro ⟨n, h, rfl⟩
      exact .plus h
    · intro h
      cases h with
      | unsigned h => exact absurd h (not_digits_sign hb (.inl rfl))
      | plus h => exact ⟨_, h, rfl⟩
  next cs =>
    rw [map_magnitude?_eq_some_iff hb]
    constructor
    · rintro ⟨n, h, rfl⟩
      exact .minus h
    · intro h
      cases h with
      | unsigned h => exact absurd h (not_digits_sign hb (.inr rfl))
      | minus h => exact ⟨_, h, rfl⟩
  next hplus hminus =>
    rw [map_magnitude?_eq_some_iff hb]
    constructor
    · rintro ⟨n, h, rfl⟩
      exact .unsigned h
    · intro h
      cases h with
      | unsigned h => exact ⟨_, h, rfl⟩
      | plus => exact absurd rfl (hplus _)
      | minus => exact absurd rfl (hminus _)

theorem value?_eq_some_iff (lit : IntLiteral) (v : Int) :
    lit.value? = some v ↔ Numeral lit.radix.base (lit.digits.filter (· ≠ '_')) v := by
  have hb : lit.radix.base ≤ 16 := by
    cases lit.radix <;> decide
  exact signedValue?_eq_some_iff hb

theorem exists_digits_toDigits (hb : 1 < base) (n : Nat) :
    ∃ ds : List Nat, ds ≠ [] ∧ (∀ d ∈ ds, d < base) ∧ Nat.toDigits base n = ds.map Nat.digitChar ∧
      Nat.ofDigits base ds.reverse = n := by
  induction n using Nat.strong_induction_on with
  | h n ih =>
    rcases Nat.lt_or_ge n base with hn | hn
    · refine ⟨[n], List.cons_ne_nil _ _, by simpa using hn, ?_, Nat.ofDigits_singleton⟩
      rw [Nat.toDigits_of_lt_base hn]
      rfl
    · obtain ⟨ds, -, hds, hchars, hval⟩ := ih (n / base) (Nat.div_lt_self (by omega) hb)
      have hmod := Nat.mod_lt n (Nat.lt_of_succ_lt hb)
      refine ⟨ds ++ [n % base], by simp, ?_, ?_, ?_⟩
      · intro d hd
        rcases List.mem_append.1 hd with hd | hd
        · exact hds d hd
        · rw [List.mem_singleton.1 hd]
          exact hmod
      · rw [Nat.toDigits_of_base_le hb hn, hchars, List.map_append]
        rfl
      · rw [List.reverse_append, List.reverse_singleton, List.singleton_append, Nat.ofDigits_cons,
          hval]
        exact Nat.mod_add_div n base

theorem head?_toDigits (hb : 1 < base) (hn : 0 < n) : (Nat.toDigits base n).head? ≠ some '0' := by
  induction n using Nat.strong_induction_on with
  | h n ih =>
    rcases Nat.lt_or_ge n base with hlt | hge
    · rw [Nat.toDigits_of_lt_base hlt]
      simpa using Nat.ne_of_gt hn
    · have hrest := ih (n / base) (Nat.div_lt_self hn hb) (Nat.div_pos hge (Nat.lt_of_succ_lt hb))
      rw [Nat.toDigits_of_base_le hb hge]
      cases hd : Nat.toDigits base (n / base) with
      | nil => exact absurd hd Nat.toDigits_ne_nil
      | cons c cs =>
        rw [hd] at hrest
        exact hrest

namespace Writes

theorem digits (h : Writes base n cs) (hb : 1 < base) : Digits base (cs.filter (· ≠ '_')) n := by
  obtain ⟨ds, hne, hds, hchars, hval⟩ := exists_digits_toDigits hb n
  exact ⟨ds, hne, hds, h.trans hchars, hval⟩

theorem ne_nil (h : Writes base n cs) : cs ≠ [] := by
  rintro rfl
  exact Nat.toDigits_ne_nil h.symm

theorem isDigit (h : Writes base n cs) (hb : 0 < base) (hb' : base ≤ 10) :
    ∀ c ∈ cs, c.isDigit ∨ c = '_' := by
  intro c hc
  by_cases hs : c = '_'
  · exact .inr hs
  · have hm : c.toLower ∈ Nat.toDigits base n := by
      rw [← h]
      exact List.mem_map_of_mem (List.mem_filter.2 ⟨hc, decide_eq_true hs⟩)
    exact .inl (isDigit_of_toLower (Nat.isDigit_of_mem_toDigits hb hb' hm))

end Writes

namespace Spells

theorem marks (h : Spells n cs) : ∃ r body, Marks cs r body ∧ Writes r.base n body := by
  cases h with
  | letter h hw => exact ⟨_, _, .letter h, hw⟩
  | zero hw => exact ⟨.octal, _, .zero hw.ne_nil (hw.isDigit (by decide) (by decide)), hw⟩
  | decimal hn hw =>
    refine ⟨.decimal, cs, .nothing ?_, hw⟩
    rintro m body rfl
    have hhead : (Nat.toDigits 10 n).head? ≠ some '0' := head?_toDigits (by decide) hn
    rw [← hw] at hhead
    exact absurd rfl hhead

theorem head?_ne_minus (h : Spells n cs) : cs.head? ≠ some '-' := by
  cases h with
  | letter => simp
  | zero => simp
  | decimal hn hw =>
    intro hm
    have hd := hw.isDigit (by decide) (by decide) '-' (List.mem_of_head? hm)
    revert hd
    decide

theorem ne_nil (h : Spells n cs) : cs ≠ [] := by
  cases h with
  | letter => simp
  | zero => simp
  | decimal hn hw => exact hw.ne_nil

end Spells

theorem ofText?_eq_some (hne : text ≠ "") (hm : text.toList.head? ≠ some '-') :
    ofText? text = some (ofChars text.toList) := by
  rw [ofText?]
  split
  next h => exact absurd (String.toList_eq_nil_iff.1 h) hne
  next c cs h =>
    rw [h] at hm ⊢
    exact if_neg fun hc => hm (congrArg some hc)

theorem ofText?_bind_value? (text : String) (v : Int) :
    (ofText? text).bind value? = some v ↔ Denotes text v := by
  by_cases hm : text.toList.head? = some '-'
  · obtain ⟨cs, hcs⟩ := List.head?_eq_some_iff.1 hm
    simp [Denotes, ofText?, hcs]
  · by_cases hne : text = ""
    · subst hne
      constructor
      · intro h
        cases h
      · rintro ⟨-, r, body, hmark, hnum⟩
        cases marks_iff.1 hmark
        cases (value?_eq_some_iff ⟨.decimal, []⟩ v).2 hnum
    · rw [ofText?_eq_some hne hm, Option.bind_some, value?_eq_some_iff]
      constructor
      · exact fun h => ⟨hm, _, _, marks_iff.2 rfl, h⟩
      · rintro ⟨-, r, body, hmark, hnum⟩
        rw [marks_iff.1 hmark]
        exact hnum

/-- A literal has the radix of its mark, and as its value that of its digits without separators; it
has none if these are malformed. All ways to write a number read back as the number. -/
theorem value?_of_grammar :
    (∀ text : String, text ≠ "" → text.toList.head? ≠ some '-' →
      ∃ lit, ofText? text = some lit ∧ (∀ r body, Marks text.toList r body ↔ lit = ⟨r, body⟩) ∧
        ∀ v, lit.value? = some v ↔ Numeral lit.radix.base (lit.digits.filter (· ≠ '_')) v) ∧
    ∀ (n : Nat) (text : String), Spells n text.toList →
      ∃ lit, ofText? text = some lit ∧ lit.value? = some (n : Int) := by
  constructor
  · intro text hne hm
    exact ⟨ofChars text.toList, ofText?_eq_some hne hm, fun r body => marks_iff,
      fun v => value?_eq_some_iff _ v⟩
  · intro n text h
    have hne : text ≠ "" := by
      rintro rfl
      exact h.ne_nil rfl
    obtain ⟨r, body, hmark, hw⟩ := h.marks
    have hb : 1 < r.base := by cases r <;> decide
    refine ⟨⟨r, body⟩, ?_, (value?_eq_some_iff _ _).2 (.unsigned (hw.digits hb))⟩
    rw [ofText?_eq_some hne h.head?_ne_minus, marks_iff.1 hmark]

/-- A sign behind the mark, letters of both cases, and a separator behind a `0`. -/
theorem value?_of_grammar_signed :
    ("0x-F_f" ≠ "" ∧ "0x-F_f".toList.head? ≠ some '-' ∧
      ∃ lit, ofText? "0x-F_f" = some lit ∧ lit.value? = some (-255)) ∧
    Spells 7 "0_7".toList ∧ ∃ lit, ofText? "0_7" = some lit ∧ lit.value? = some 7 := by
  obtain ⟨hgrammar, hround⟩ := value?_of_grammar
  have hne : "0x-F_f" ≠ "" := by decide
  have hm : "0x-F_f".toList.head? ≠ some '-' := by decide
  have hseven : Spells 7 "0_7".toList := .zero (show Writes 8 7 ['_', '7'] from rfl)
  refine ⟨⟨hne, hm, ?_⟩, hseven, hround 7 _ hseven⟩
  obtain ⟨lit, hlit, hmarks, hvalue⟩ := hgrammar _ hne hm
  have hx : Marks "0x-F_f".toList .hexadecimal ['-', 'F', '_', 'f'] := .letter (by decide)
  cases (hmarks _ _).1 hx
  have hdigits : Digits 16 ['F', 'f'] 255 :=
    ⟨[15, 15], by decide, by decide, by decide, by decide⟩
  exact ⟨_, hlit, (hvalue _).2 (.minus hdigits)⟩

end SwitchCover.IntLiteral

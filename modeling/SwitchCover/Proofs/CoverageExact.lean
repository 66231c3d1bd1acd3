import Mathlib.Tactic.IntervalCases
import SwitchCover.Proofs.RuleCorrect

namespace SwitchCover

/-- Every chain of parentheses ends. -/
def Body.ParensEnd (b : Body) : Prop :=
  ∀ d, ∃ n e, b.Strips n d e

theorem Body.parensEnd_of_lt {b : Body}
    (h : ∀ d c, b.expr? d = some (.paren c) → c.index < d.index) : b.ParensEnd := by
  intro d
  induction hi : d.index using Nat.strongRecOn generalizing d with
  | _ i ih =>
    by_cases hp : ∃ c, b.expr? d = some (.paren c)
    · obtain ⟨c, hp⟩ := hp
      obtain ⟨n, e, hs⟩ := ih c.index (hi ▸ h d c hp) c rfl
      exact ⟨n + 1, e, .paren hp hs⟩
    · exact ⟨0, d, .bare fun c hc => hp ⟨c, hc⟩⟩

namespace Switch

def Covered (s : Switch) (settings : Settings) (table : TypeTable) (b : Body) (t : NamedType)
    (k : EnumConstant) : Prop :=
  ∃ c ∈ s.clauses, ∃ labels, c.labels = some labels ∧
    ∃ label ∈ labels, Covers settings table b t label k

theorem mem_labels {s : Switch} {label : ExprId} :
    label ∈ s.labels ↔ ∃ c ∈ s.clauses, ∃ labels, c.labels = some labels ∧ label ∈ labels := by
  simp only [labels, List.mem_flatMap, Clause.labelList]
  apply exists_congr
  intro c
  cases c.labels <;> simp

theorem covered_iff {s : Switch} : s.Covered settings table b t k ↔
    ∃ label ∈ s.labels, Covers settings table b t label k := by
  simp only [Covered, mem_labels]
  constructor
  · rintro ⟨c, hc, labels, hl, label, hm, h⟩
    exact ⟨label, ⟨c, hc, labels, hl, hm⟩, h⟩
  · rintro ⟨label, ⟨c, hc, labels, hl, hm⟩, h⟩
    exact ⟨c, hc, labels, hl, label, hm, h⟩

theorem hasDefault_eq_true {s : Switch} :
    s.hasDefault = true ↔ ∃ c ∈ s.clauses, c.labels = none := by
  simp [hasDefault, Clause.isDefault]

end Switch

namespace Coverage

variable {c : Coverage} {constants : List EnumConstant} {p : String → Bool}

theorem Tracks.isFound (h : c.Tracks constants p) (hk : k ∈ constants) :
    c.isFound k.name = some (p k.name) := by
  apply OrderedMap.get?_eq_some_iff.2
  rw [h]
  exact List.mem_map_of_mem hk

theorem Tracks.isFound_eq_none (h : c.Tracks constants p)
    (hn : ∀ k ∈ constants, k.name ≠ name) : c.isFound name = none := by
  apply OrderedMap.get?_eq_none_iff.2
  rw [OrderedMap.keys, h, List.map_map, List.mem_map]
  rintro ⟨k, hk, he⟩
  exact hn k hk he

/-- Without a default clause a check answers with a record of the marked constants, unless all are
marked. -/
theorem check_tracks (settings : Settings) (table : TypeTable) (b : Body) (s : Switch)
    (t : NamedType) (hn : (constants.map EnumConstant.name).Nodup) (hd : ¬s.hasDefault) :
    ∃ c : Coverage,
      c.Tracks constants (fun n => decide (n ∈ marked settings table b s t constants)) ∧
      (check settings table b s t constants).value =
        if ∀ k ∈ constants, k.name ∈ marked settings table b s t constants then none
        else some c := by
  have ht := (tracks_initial hn).coverAll (marked settings table b s t constants)
  simp only [Bool.false_or] at ht
  refine ⟨_, ht, ?_⟩
  rw [check_value settings table b s t constants hd]
  simp only [ht.isComplete, List.all_eq_true, decide_eq_true_eq]

open Classical in
/-- A check accepts a switch exactly if some clause is a default clause or every constant is
covered. Any other answer finds the covered constants, does not find the uncovered ones, knows no
other names, and lists the uncovered constants in the order in which they were given. -/
theorem check_exact (settings : Settings) (table : TypeTable) (b : Body) (s : Switch)
    (t : NamedType) (constants : List EnumConstant) (hb : b.ParensEnd)
    (hn : (constants.map EnumConstant.name).Nodup) :
    let answer := (check settings table b s t constants).value
    let accepted := (∃ c ∈ s.clauses, c.labels = none) ∨
      ∀ k ∈ constants, s.Covered settings table b t k
    (answer = none ↔ accepted) ∧
    (¬accepted → ∃ c, answer = some c ∧
      (∀ k ∈ constants, c.isFound k.name = some (decide (s.Covered settings table b t k))) ∧
      (∀ name, (∀ k ∈ constants, k.name ≠ name) → c.isFound name = none) ∧
      c.missing = (constants.filter fun k => ¬s.Covered settings table b t k).map
        EnumConstant.name) := by
  intro answer accepted
  have hm : ∀ k ∈ constants, k.name ∈ marked settings table b s t constants ↔
      s.Covered settings table b t k := by
    intro k hk
    rw [Switch.covered_iff, mem_marked_of_strips (fun label _ => hb label) hn hk]
  by_cases hd : s.hasDefault
  · have ha : answer = none := by simp [answer, check, hd]
    have hc : accepted := .inl (Switch.hasDefault_eq_true.1 hd)
    exact ⟨iff_of_true ha hc, fun h => absurd hc h⟩
  · obtain ⟨c, ht, ha⟩ := check_tracks settings table b s t hn hd
    have hall : accepted ↔
        ∀ k ∈ constants, k.name ∈ marked settings table b s t constants := by
      have hdef := mt Switch.hasDefault_eq_true.2 hd
      simp only [accepted, hdef, false_or]
      exact forall₂_congr fun k hk => (hm k hk).symm
    rw [hall]
    refine ⟨by simp [answer, ha], fun h => ⟨c, by simp only [answer, ha, if_neg h], ?_, ?_, ?_⟩⟩
    · intro k hk
      rw [ht.isFound hk, decide_eq_decide.2 (hm k hk)]
    · exact fun name => ht.isFound_eq_none
    · rw [ht.missing]
      congr 1
      apply List.filter_congr
      intro k hk
      simp [hm k hk]

section Kind

def kind : NamedType := ⟨⟨"p"⟩, "Kind"⟩

def kindTable : TypeTable := ⟨[.named kind]⟩

def kindConstants : List EnumConstant :=
  [⟨"A", 1, some (.int 0)⟩, ⟨"B", 2, some (.int 1)⟩, ⟨"C", 3, some (.int 2)⟩,
    ⟨"D", 4, some (.int 2)⟩, ⟨"E", 5, some (.int 3)⟩]

/-- The expressions `A`, `B`, `(B)`, `Kind`, `2`, `Kind(2)`, `q` and `q.E`, where `q` is another
package. -/
def kindBody : Body where
  exprs := [⟨.ident "A", ⟨0, 1⟩, none, none, false⟩, ⟨.ident "B", ⟨3, 4⟩, none, none, false⟩,
    ⟨.paren ⟨1⟩, ⟨2, 5⟩, none, none, false⟩, ⟨.ident "Kind", ⟨6, 10⟩, none, none, true⟩,
    ⟨.intLit "2", ⟨11, 12⟩, none, none, false⟩,
    ⟨.call ⟨3⟩ [⟨4⟩], ⟨6, 13⟩, some ⟨⟨0⟩, some (.int 2)⟩, none, false⟩,
    ⟨.ident "q", ⟨14, 15⟩, none, some ⟨"q"⟩, false⟩,
    ⟨.selector ⟨6⟩ "E", ⟨14, 17⟩, none, none, false⟩]
  stmts := []
  root := []

def kindSwitch : Switch :=
  ⟨none, none, [⟨some [⟨0⟩, ⟨2⟩, ⟨0⟩], []⟩, ⟨some [⟨5⟩, ⟨7⟩], []⟩]⟩

def kindSettings : Settings :=
  { qualifiedLabels := .strict, conversionLabels := .evaluate }

/-- A value covers both constants that share it, and a name of another package covers none. -/
theorem check_exact_kind :
    kindBody.ParensEnd ∧ (kindConstants.map EnumConstant.name).Nodup ∧
    ∃ c, (check kindSettings kindTable kindBody kindSwitch kind kindConstants).value = some c ∧
      c.missing = ["E"] ∧
      ∀ k ∈ kindConstants,
        kindSwitch.Covered kindSettings kindTable kindBody kind k ↔ k.name ≠ "E" := by
  have hb : kindBody.ParensEnd := by
    apply Body.parensEnd_of_lt
    rintro ⟨i⟩ c hc
    have hi : i < 8 := Body.has_of_expr? hc
    interval_cases i <;> cases hc
    decide
  have hn : (kindConstants.map EnumConstant.name).Nodup := by decide
  obtain ⟨hnone, hsome⟩ := check_exact kindSettings kindTable kindBody kindSwitch kind
    kindConstants hb hn
  have hne : (check kindSettings kindTable kindBody kindSwitch kind kindConstants).value.map
      missing = some ["E"] := by decide
  have hfound : ∀ k ∈ kindConstants,
      (check kindSettings kindTable kindBody kindSwitch kind kindConstants).value.bind
        (·.isFound k.name) = some (decide (k.name ≠ "E")) := by decide
  have hrej :
      (check kindSettings kindTable kindBody kindSwitch kind kindConstants).value ≠ none := by
    intro h
    simp [h] at hne
  obtain ⟨c, hc, hf, _, _⟩ := hsome (mt hnone.2 hrej)
  rw [hc] at hne hfound
  refine ⟨hb, hn, c, hc, Option.some.inj hne, fun k hk => ?_⟩
  exact decide_eq_decide.1 (Option.some.inj ((hf k hk).symm.trans (hfound k hk)))

end Kind

end Coverage

end SwitchCover

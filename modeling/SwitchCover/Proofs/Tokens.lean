import SwitchCover.Proofs.FuncRuns

namespace SwitchCover

namespace Text

theorem byteLength_reverse (cs : List Char) : byteLength cs.reverse = byteLength cs := by
  induction cs with
  | nil => rfl
  | cons c cs ih =>
    rw [List.reverse_cons, byteLength_append, ih]
    simp only [byteLength]
    omega

/-- Of two beginnings of a text, the one with more bytes continues the other. -/
theorem exists_append_of_byteLength_le (h : before ++ rest = before' ++ after)
    (hle : byteLength before ≤ byteLength before') :
    ∃ mid, before' = before ++ mid ∧ rest = mid ++ after := by
  rcases List.append_eq_append_iff.1 h with ⟨mid, hm, hr⟩ | ⟨mid, rfl, hr⟩
  · exact ⟨mid, hm, hr⟩
  · cases mid with
    | nil => exact ⟨[], by simp, by simpa using hr.symm⟩
    | cons c mid =>
      have hc := c.utf8Size_pos
      simp only [byteLength_append, byteLength] at hle
      omega

theorem isBoundary_zero (cs : List Char) : IsBoundary cs 0 :=
  ⟨[], cs, rfl, rfl⟩

theorem IsBoundary.le (h : IsBoundary cs n) : n ≤ byteLength cs := by
  obtain ⟨before, after, rfl, rfl⟩ := h
  rw [byteLength_append]
  exact Nat.le_add_right _ _

theorem slice?_eq_some : slice? cs start stop = some part ↔ ∃ before after,
    cs = before ++ part ++ after ∧ byteLength before = start ∧
      stop = start + byteLength part := by
  rw [slice?]
  constructor
  · intro h
    split at h
    next before rest hs =>
      obtain ⟨rfl, hb⟩ := eq_append_of_splitAt? hs
      split at h
      next hle =>
        obtain ⟨⟨part', after⟩, hp, rfl⟩ := Option.map_eq_some_iff.1 h
        obtain ⟨rfl, hl⟩ := eq_append_of_splitAt? hp
        refine ⟨before, after, (List.append_assoc ..).symm, hb, ?_⟩
        simp only [hl]
        omega
      next => cases h
    next => cases h
  · rintro ⟨before, after, rfl, rfl, rfl⟩
    have hlen : byteLength before + byteLength part - byteLength before = byteLength part := by
      omega
    simp only [List.append_assoc, splitAt?_byteLength, if_pos (Nat.le_add_right _ _), hlen,
      Option.map_some]

theorem isBoundary_of_slice? (h : slice? cs start stop = some part) :
    IsBoundary cs start ∧ IsBoundary cs stop ∧ stop = start + byteLength part := by
  obtain ⟨before, after, rfl, rfl, rfl⟩ := slice?_eq_some.1 h
  refine ⟨⟨before, part ++ after, List.append_assoc .., rfl⟩, ⟨before ++ part, after, rfl, ?_⟩, rfl⟩
  exact byteLength_append before part

/-- A search passes some text and stops where the needle stands. -/
theorem searchFrom_eq_some (h : searchFrom needle before skip cs = some passed) :
    ∃ mid rest, cs = mid ++ needle ++ rest ∧ passed = mid.reverse ++ before := by
  fun_induction searchFrom needle before skip cs with
  | case1 before hc =>
    obtain ⟨rfl, -⟩ := hc
    cases h
    exact ⟨[], [], rfl, rfl⟩
  | case2 => cases h
  | case3 => cases h
  | case4 before skip c cs ih =>
    obtain ⟨mid, rest, rfl, rfl⟩ := ih h
    exact ⟨c :: mid, rest, rfl, by simp⟩
  | case5 before c cs hp _ =>
    obtain ⟨rest, hr⟩ := List.isPrefixOf_iff_prefix.1 hp
    cases h
    exact ⟨[], rest, hr.symm, rfl⟩
  | case6 before c cs _ _ ih =>
    obtain ⟨mid, rest, rfl, rfl⟩ := ih h
    exact ⟨c :: mid, rest, rfl, by simp⟩
  | case7 before c cs _ ih =>
    obtain ⟨mid, rest, rfl, rfl⟩ := ih h
    exact ⟨c :: mid, rest, rfl, by simp⟩

theorem findToken_eq_some (h : findToken cs start needle = some n) :
    start ≤ n ∧ slice? cs n (n + byteLength needle) = some needle := by
  rw [findToken] at h
  split at h
  next before rest hs =>
    obtain ⟨rfl, hb⟩ := eq_append_of_splitAt? hs
    obtain ⟨passed, hp, rfl⟩ := Option.map_eq_some_iff.1 h
    obtain ⟨mid, after, rfl, rfl⟩ := searchFrom_eq_some hp
    have hlen : byteLength (mid.reverse ++ before.reverse) = byteLength (before ++ mid) := by
      rw [← List.reverse_append, byteLength_reverse]
    rw [hlen]
    constructor
    · rw [byteLength_append, hb]
      exact Nat.le_add_right _ _
    · exact slice?_eq_some.2 ⟨before ++ mid, after, by simp, rfl, rfl⟩
  next => cases h

end Text

/-- A range of a text, up to a limit: its ends are in order and stand between characters. -/
structure TextRange.Fits (r : TextRange) (cs : List Char) (limit : Nat) : Prop where
  ordered : r.start ≤ r.stop
  within : r.stop ≤ limit
  start : Text.IsBoundary cs r.start
  stop : Text.IsBoundary cs r.stop

namespace TextRange.Fits

variable {r s : TextRange} {cs : List Char} {limit : Nat}

theorem mono (h : r.Fits cs limit) (hl : limit ≤ limit') : r.Fits cs limit' :=
  ⟨h.ordered, Nat.le_trans h.within hl, h.start, h.stop⟩

theorem emptyAt (h : Text.IsBoundary cs n) (hl : n ≤ limit) : (TextRange.emptyAt n).Fits cs limit :=
  ⟨Nat.le_refl _, hl, h, h⟩

theorem cover (h : r.Fits cs limit) (h' : s.Fits cs limit) : (r.cover s).Fits cs limit where
  ordered := Nat.le_trans (Nat.min_le_left ..) (Nat.le_trans h.ordered (Nat.le_max_left ..))
  within := Nat.max_le.2 ⟨h.within, h'.within⟩
  start := by
    simp only [TextRange.cover]
    rcases Nat.le_total r.start s.start with hle | hle
    · rw [Nat.min_eq_left hle]
      exact h.start
    · rw [Nat.min_eq_right hle]
      exact h'.start
  stop := by
    simp only [TextRange.cover]
    rcases Nat.le_total r.stop s.stop with hle | hle
    · rw [Nat.max_eq_right hle]
      exact h'.stop
    · rw [Nat.max_eq_left hle]
      exact h.stop

theorem extendTo (h : r.Fits cs limit) (hl : Text.IsBoundary cs limit) :
    (r.extendTo limit).Fits cs limit := by
  rw [TextRange.extendTo, Nat.max_eq_left h.within]
  exact ⟨Nat.le_trans h.ordered h.within, Nat.le_refl _, h.start, hl⟩

end TextRange.Fits

/-- Tokens of a text from one offset to another: each stands at or behind the end of the one before
it. -/
inductive Follows (cs : List Char) (start : Nat) : List Token → Nat → Prop where
  | nil : Follows cs start [] start
  | snoc (h : Follows cs start ts n) (hn : n ≤ t.range.start)
    (ht : Text.slice? cs t.range.start t.range.stop = some t.needle.toList) :
    Follows cs start (ts ++ [t]) t.range.stop

def Token.endOf (start : Nat) (ts : List Token) : Nat :=
  (ts.getLast?.map fun t => t.range.stop).getD start

namespace Follows

variable {cs : List Char} {a b c : Nat} {ts us : List Token}

theorem trans (h : Follows cs a ts b) (h' : Follows cs b us c) : Follows cs a (ts ++ us) c := by
  induction h' with
  | nil => rwa [List.append_nil]
  | snoc _ hn ht ih =>
    rw [← List.append_assoc]
    exact ih.snoc hn ht

theorem endOf (h : Follows cs a ts b) : b = Token.endOf a ts := by
  cases h with
  | nil => rfl
  | snoc => simp [Token.endOf]

theorem le (h : Follows cs a ts b) : a ≤ b := by
  induction h with
  | nil => exact Nat.le_refl _
  | snoc _ hn ht ih =>
    obtain ⟨-, -, hstop⟩ := Text.isBoundary_of_slice? ht
    omega

theorem boundary (h : Follows cs a ts b) (ha : Text.IsBoundary cs a) : Text.IsBoundary cs b := by
  cases h with
  | nil => exact ha
  | snoc _ _ ht => exact (Text.isBoundary_of_slice? ht).2.1

theorem fits (h : Follows cs a ts b) (ht : t ∈ ts) : t.range.Fits cs b := by
  induction h with
  | nil => cases ht
  | snoc h hn hs ih =>
    obtain ⟨hstart, hstop, hle⟩ := Text.isBoundary_of_slice? hs
    rcases List.mem_append.1 ht with ht | ht
    · exact (ih ht).mono (by omega)
    · cases List.mem_singleton.1 ht
      exact ⟨by omega, Nat.le_refl _, hstart, hstop⟩

theorem slice (h : Follows cs a ts b) (ht : t ∈ ts) :
    Text.slice? cs t.range.start t.range.stop = some t.needle.toList := by
  induction h with
  | nil => cases ht
  | snoc h hn hs ih =>
    rcases List.mem_append.1 ht with ht | ht
    · exact ih ht
    · cases List.mem_singleton.1 ht
      exact hs

theorem pairwise (h : Follows cs a ts b) :
    ts.Pairwise fun t u => t.range.stop ≤ u.range.start := by
  induction h with
  | nil => exact .nil
  | snoc h hn hs ih =>
    refine List.pairwise_append.2 ⟨ih, List.pairwise_singleton _ _, ?_⟩
    intro t ht u hu
    cases List.mem_singleton.1 hu
    exact Nat.le_trans (h.fits ht).within hn

end Follows

theorem OpenFile.locate?_spec {f : OpenFile} (h : f.locate? store needle = some r) :
    f.cursor ≤ r.start ∧ Text.slice? (f.chars store) r.start r.stop = some needle.toList := by
  obtain ⟨n, hn, rfl⟩ := Option.map_eq_some_iff.1 h
  exact Text.findToken_eq_some hn

theorem OpenFile.locate?_le {f : OpenFile} (h : f.locate? store needle = some r) :
    f.cursor ≤ r.stop := by
  obtain ⟨hle, hs⟩ := locate?_spec h
  obtain ⟨-, -, hstop⟩ := Text.isBoundary_of_slice? hs
  omega

theorem OpenFile.tokens_follows (f : OpenFile) (store : FileStore) (needles : List String) :
    ∃ n, Follows (f.chars store) f.cursor (f.tokens store needles) n := by
  induction needles generalizing f with
  | nil => exact ⟨_, .nil⟩
  | cons needle needles ih =>
    rw [tokens]
    cases hr : f.locate? store needle with
    | none => exact ⟨_, .nil⟩
    | some r =>
      obtain ⟨hle, hs⟩ := locate?_spec hr
      have hone : Follows (f.chars store) f.cursor ([] ++ [⟨needle, r⟩]) r.stop :=
        Follows.nil.snoc (t := ⟨needle, r⟩) hle hs
      obtain ⟨n, hn⟩ := ih { f with cursor := r.stop }
      exact ⟨n, hone.trans hn⟩

def Body.ranges (b : Body) : List TextRange :=
  b.exprs.map ExprNode.range ++ b.stmts.map StmtNode.range

def Func.ranges (g : Func) : List TextRange :=
  g.range :: g.body.ranges

namespace Body

variable {b : Body} {cs : List Char} {n : Nat}

theorem exprRange_fits (h : ∀ r ∈ b.ranges, r.Fits cs n) (e : ExprId) :
    (b.exprRange e).Fits cs n := by
  rw [exprRange]
  split
  next node hn =>
    exact h _ (List.mem_append_left _ (List.mem_map_of_mem (List.mem_of_getElem? hn)))
  next => exact .emptyAt (Text.isBoundary_zero cs) (Nat.zero_le n)

theorem stmtRange_fits (h : ∀ r ∈ b.ranges, r.Fits cs n) (s : StmtId) :
    (b.stmtRange s).Fits cs n := by
  rw [stmtRange]
  split
  next node hn =>
    exact h _ (List.mem_append_right _ (List.mem_map_of_mem (List.mem_of_getElem? hn)))
  next => exact .emptyAt (Text.isBoundary_zero cs) (Nat.zero_le n)

theorem mem_ranges_addExpr (hr : r ∈ (b.addExpr node).ranges) : r ∈ b.ranges ∨ r = node.range := by
  simp only [ranges, addExpr, List.map_append, List.mem_append, List.map_cons, List.map_nil,
    List.mem_singleton] at hr ⊢
  grind

theorem mem_ranges_addStmt (hr : r ∈ (b.addStmt node).ranges) : r ∈ b.ranges ∨ r = node.range := by
  simp only [ranges, addStmt, List.map_append, List.mem_append, List.map_cons, List.map_nil,
    List.mem_singleton] at hr ⊢
  grind

theorem ranges_setTyping (b : Body) (e : ExprId) (t : Typing) :
    (b.setTyping e t).ranges = b.ranges := by
  have he : (b.setTyping e t).exprs.map ExprNode.range = b.exprs.map ExprNode.range := by
    apply List.ext_getElem?
    intro i
    simp only [setTyping, modifyExpr, List.getElem?_map, List.getElem?_modify]
    cases b.exprs[i]? with
    | none => rfl
    | some node =>
      simp only [Option.map_some]
      split <;> rfl
  rw [ranges, he]
  rfl

end Body

theorem Spanned.fits (h : Spanned ranges t r) (hk : ∀ r ∈ ranges, r.Fits cs t.file.cursor)
    (hb : ∀ r ∈ t.func.body.ranges, r.Fits cs t.file.cursor)
    (hc : Text.IsBoundary cs t.file.cursor) : r.Fits cs t.file.cursor := by
  induction h with
  | known hr => exact hk _ hr
  | expr e => exact Body.exprRange_fits hb e
  | stmt s => exact Body.stmtRange_fits hb s
  | cover _ _ ih ih' => exact ih.cover ih'
  | toCursor _ ih => exact ih.extendTo hc
  | atCursor => exact .emptyAt hc (Nat.le_refl _)

namespace Run

variable {I : Inputs} {s t : FuncState}

/-- A run moves the cursor and leaves the rest of the file and of the program but types alone. -/
theorem program_eq (h : Run I s found t) :
    t.program = { s.program with types := t.program.types } := by
  induction h with
  | start => rfl
  | token _ _ ih => exact ih
  | quiet _ _ _ _ ih => rw [ih]
  | expr _ _ _ ih => exact ih
  | stmt _ _ _ ih => exact ih
  | bind _ _ _ _ ih => exact ih

theorem file_eq (h : Run I s found t) : t.file = { s.file with cursor := t.file.cursor } := by
  induction h with
  | start => rfl
  | token _ _ ih => rw [FuncState.behind, ih]
  | quiet _ _ _ _ ih => exact ih
  | expr _ _ _ ih => exact ih
  | stmt _ _ _ ih => exact ih
  | bind _ _ _ _ ih => exact ih

theorem range_eq (h : Run I s found t) : t.func.range = s.func.range := by
  induction h with
  | start => rfl
  | token _ _ ih => exact ih
  | quiet _ _ _ _ ih => exact ih
  | expr _ _ _ ih => exact ih
  | stmt _ _ _ ih => exact ih
  | bind _ _ _ _ ih => exact ih

theorem chars_eq (h : Run I s found t) :
    t.file.chars t.program.files = s.file.chars s.program.files := by
  rw [h.file_eq, h.program_eq]
  rfl

theorem follows (h : Run I s found t) :
    Follows (s.file.chars s.program.files) s.file.cursor found t.file.cursor := by
  induction h with
  | start => exact .nil
  | token h hr ih =>
    obtain ⟨hle, hs⟩ := OpenFile.locate?_spec hr
    rw [h.chars_eq] at hs
    exact ih.snoc hle hs
  | quiet _ _ _ _ ih => exact ih
  | expr _ _ _ ih => exact ih
  | stmt _ _ _ ih => exact ih
  | bind _ _ _ _ ih => exact ih

/-- All ranges of the body stay within the text up to the cursor. -/
theorem fits (h : Run I s found t) (hcs : s.file.chars s.program.files = cs)
    (hc : Text.IsBoundary cs s.file.cursor) (hI : ∀ r ∈ I.ranges, r.Fits cs s.file.cursor)
    (hb : ∀ r ∈ s.func.body.ranges, r.Fits cs s.file.cursor) :
    ∀ r ∈ t.func.body.ranges, r.Fits cs t.file.cursor := by
  subst hcs
  have hknown {found : List Token} {t : FuncState} (h : Run I s found t) :
      ∀ r ∈ I.ranges ++ found.map Token.range,
        r.Fits (s.file.chars s.program.files) t.file.cursor := by
    intro r hr
    rcases List.mem_append.1 hr with hr | hr
    · exact (hI r hr).mono h.follows.le
    · obtain ⟨token, ht, rfl⟩ := List.mem_map.1 hr
      exact h.follows.fits ht
  induction h with
  | start => exact hb
  | token h hr ih =>
    intro r hmem
    exact (ih r hmem).mono (OpenFile.locate?_le hr)
  | quiet _ _ _ _ ih => exact ih
  | expr h _ hr ih =>
    intro r hmem
    rcases Body.mem_ranges_addExpr hmem with hmem | rfl
    · exact ih r hmem
    · exact hr.fits (hknown h) ih (h.follows.boundary hc)
  | stmt h hr _ ih =>
    intro r hmem
    rcases Body.mem_ranges_addStmt hmem with hmem | rfl
    · exact ih r hmem
    · exact hr.fits (hknown h) ih (h.follows.boundary hc)
  | bind _ _ _ _ ih =>
    intro r hmem
    rw [Body.ranges_setTyping] at hmem
    exact ih r hmem

end Run

end SwitchCover

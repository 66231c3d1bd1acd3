import SwitchCover.Proofs.Traversal
import SwitchCover.Proofs.TypeTable

namespace SwitchCover.Body

/-- Every recorded type is in the table. -/
def Typed (b : Body) (table : TypeTable) : Prop :=
  ∀ e t, b.typing? e = some t → table.Has t.ty

structure Valid (b : Body) (table : TypeTable) : Prop where
  ordered : b.Ordered
  rooted : b.Rooted
  typed : b.Typed table

theorem Typed.mono {b : Body} {s t : TypeTable} (h : b.Typed s) (he : s.Extends t) : b.Typed t :=
  fun e ty hty => (h e ty hty).mono he

theorem Valid.mono {b : Body} {s t : TypeTable} (h : b.Valid s) (he : s.Extends t) : b.Valid t :=
  ⟨h.ordered, h.rooted, h.typed.mono he⟩

theorem valid_empty (table : TypeTable) : empty.Valid table where
  ordered := by
    refine ⟨fun _ => 0, ?_, ?_, ?_, ?_, ?_⟩
    · rintro (s | e) h <;> exact absurd h (Nat.not_lt_zero _)
    · exact fun _ _ => Nat.zero_le _
    · rintro (s | e) m h <;> cases h
    · exact fun s t _ h => absurd h (Nat.not_lt_zero _)
    · exact fun d e _ h => absurd h (Nat.not_lt_zero _)
  rooted := fun s h => by cases h
  typed := fun e t h => by cases h

/-- Nodes added one after the other: each is new and refers only to nodes that are done. -/
def MadeAfter (b : Body) (done : NodeId → Prop) : List NodeId → Prop
  | [] => True
  | n :: ns => ¬done n ∧ (∀ m ∈ b.mentions n, done m) ∧ b.MadeAfter (fun m => done m ∨ m = n) ns

/-- The second body comes from the first by adding nodes in the given order. -/
structure Makes (b : Body) (new : List NodeId) (b' : Body) : Prop where
  has : ∀ n, b'.Has n ↔ b.Has n ∨ n ∈ new
  old : ∀ n, b.Has n → b'.mentions n = b.mentions n
  order : b'.MadeAfter b.Has new

theorem MadeAfter.congr {b b' : Body} {done done' : NodeId → Prop} (h : b.MadeAfter done ns)
    (hd : ∀ m, done m ↔ done' m) (hm : ∀ n ∈ ns, b'.mentions n = b.mentions n) :
    b'.MadeAfter done' ns := by
  induction ns generalizing done done' with
  | nil => trivial
  | cons n ns ih =>
    obtain ⟨hn, hr, hs⟩ := h
    refine ⟨fun hd' => hn ((hd n).2 hd'), ?_, ?_⟩
    · intro m hmem
      rw [hm n List.mem_cons_self] at hmem
      exact (hd m).1 (hr m hmem)
    · apply ih hs
      · exact fun m => or_congr_left (hd m)
      · exact fun k hk => hm k (List.mem_cons_of_mem n hk)

theorem MadeAfter.append {b : Body} {done : NodeId → Prop} (h : b.MadeAfter done ns)
    (h' : b.MadeAfter (fun m => done m ∨ m ∈ ns) ns') : b.MadeAfter done (ns ++ ns') := by
  induction ns generalizing done with
  | nil => simpa using h'
  | cons n ns ih =>
    obtain ⟨hn, hr, hs⟩ := h
    refine ⟨hn, hr, ih hs (h'.congr ?_ fun _ _ => rfl)⟩
    intro m
    rw [List.mem_cons, or_assoc]

theorem Makes.refl (b : Body) : b.Makes [] b where
  has := by simp
  old := fun _ _ => rfl
  order := trivial

theorem Makes.trans {a b c : Body} (h : a.Makes new b) (h' : b.Makes new' c) :
    a.Makes (new ++ new') c where
  has := by
    intro n
    rw [h'.has, h.has, List.mem_append, or_assoc]
  old := by
    intro n hn
    rw [h'.old n ((h.has n).2 (.inl hn)), h.old n hn]
  order := by
    apply MadeAfter.append
    · exact h.order.congr (fun _ => .rfl) fun n hn => h'.old n ((h.has n).2 (.inr hn))
    · exact h'.order.congr h.has fun _ _ => rfl

theorem Makes.setRoot {a b : Body} (h : a.Makes new b) (root : List StmtId) :
    a.Makes new { b with root } where
  has := h.has
  old := h.old
  order := h.order.congr (fun _ => .rfl) fun _ _ => rfl

theorem makes_singleton {b b' : Body} (hhas : ∀ n, b'.Has n ↔ b.Has n ∨ n = new)
    (hnew : ¬b.Has new) (hold : ∀ n, n ≠ new → b'.mentions n = b.mentions n)
    (hm : ∀ m ∈ b'.mentions new, b.Has m) : b.Makes [new] b' where
  has := by simpa using hhas
  old := by
    intro n hn
    apply hold
    rintro rfl
    exact hnew hn
  order := ⟨hnew, hm, trivial⟩

theorem Ordered.add {b b' : Body} (h : b.Ordered) (hm : b.Makes [new] b')
    (hstmt : ∀ s t : StmtId, new = .stmt t → s.index < t.index → b.Has (.stmt s))
    (hexpr : ∀ d e : ExprId, new = .expr e → d.index < e.index → b.Has (.expr d))
    (hdepth : b'.maxDepth = b.maxDepth + new.weight) : b'.Ordered := by
  obtain ⟨stamp, h⟩ := h
  obtain ⟨hnew, hrefers, -⟩ := hm.order
  have hhas (n : NodeId) : b'.Has n ↔ b.Has n ∨ n = new := by simpa using hm.has n
  have hw : 0 < new.weight := by cases new <;> simp [NodeId.weight]
  have hold {n : NodeId} (hn : b.Has n) : n ≠ new := by
    rintro rfl
    exact hnew hn
  -- The new node gets the latest stamp, and the others keep theirs.
  refine ⟨fun n => if n = new then b'.maxDepth else stamp n, ?_, ?_, ?_, ?_, ?_⟩
  · intro n hn
    rcases (hhas n).1 hn with hn | rfl
    · simpa only [if_neg (hold hn)] using h.weight_le n hn
    · simp only [if_true]
      omega
  · intro n hn
    rcases (hhas n).1 hn with hn | rfl
    · have hle := h.le_maxDepth n hn
      simp only [if_neg (hold hn)]
      omega
    · simp only [if_true, Nat.le_refl]
  · intro n m hmem
    rcases (hhas n).1 (has_of_mem_mentions hmem) with hn | rfl
    · obtain ⟨hb, hlt⟩ := h.mention n m (hm.old n hn ▸ hmem)
      simp only [if_neg (hold hn), if_neg (hold hb)]
      exact ⟨(hhas m).2 (.inl hb), hlt⟩
    · have hb := hrefers m hmem
      have hle := h.le_maxDepth m hb
      simp only [if_true, if_neg (hold hb)]
      exact ⟨(hhas m).2 (.inl hb), by omega⟩
  · intro s t hst ht
    rcases (hhas _).1 ht with ht | ht
    · have hs : b.Has (.stmt s) := Nat.lt_trans hst ht
      simpa only [if_neg (hold hs), if_neg (hold ht)] using h.stmts_lt s t hst ht
    · have hs := hstmt s t ht.symm hst
      have hle := h.le_maxDepth _ hs
      simp only [if_neg (hold hs), if_pos ht]
      omega
  · intro d e hde he
    rcases (hhas _).1 he with he | he
    · have hd : b.Has (.expr d) := Nat.lt_trans hde he
      simpa only [if_neg (hold hd), if_neg (hold he)] using h.exprs_lt d e hde he
    · have hd := hexpr d e he.symm hde
      have hle := h.le_maxDepth _ hd
      simp only [if_neg (hold hd), if_pos he]
      omega

theorem exprNode?_pushExpr (b : Body) (expr : Expr) (range : TextRange) (e : ExprId) :
    (b.pushExpr expr range).2.exprNode? e =
      if e = (b.pushExpr expr range).1 then some ⟨expr, range, none, none, false⟩
      else b.exprNode? e := by
  obtain ⟨i⟩ := e
  simp only [pushExpr, exprNode?, ExprId.mk.injEq, List.getElem?_append]
  by_cases hi : i < b.exprs.length
  · rw [if_pos hi, if_neg (by omega)]
  · by_cases he : i = b.exprs.length
    · simp [he]
    · have hlt : b.exprs.length < i := by omega
      simp [hi, he, Nat.sub_eq_zero_iff_le, Nat.not_le_of_lt hlt]

theorem stmtNode?_pushStmt (b : Body) (stmt : Stmt) (range : TextRange) (s : StmtId) :
    (b.pushStmt stmt range).2.stmtNode? s =
      if s = (b.pushStmt stmt range).1 then some ⟨stmt, range⟩ else b.stmtNode? s := by
  obtain ⟨i⟩ := s
  simp only [pushStmt, stmtNode?, StmtId.mk.injEq, List.getElem?_append]
  by_cases hi : i < b.stmts.length
  · rw [if_pos hi, if_neg (by omega)]
  · by_cases he : i = b.stmts.length
    · simp [he]
    · have hlt : b.stmts.length < i := by omega
      simp [hi, he, Nat.sub_eq_zero_iff_le, Nat.not_le_of_lt hlt]

theorem has_pushExpr (b : Body) (expr : Expr) (range : TextRange) (n : NodeId) :
    (b.pushExpr expr range).2.Has n ↔ b.Has n ∨ n = .expr (b.pushExpr expr range).1 := by
  cases n with
  | stmt s => simp [Has, pushExpr]
  | expr e =>
    obtain ⟨i⟩ := e
    simp only [Has, pushExpr, List.length_append, List.length_singleton, NodeId.expr.injEq,
      ExprId.mk.injEq]
    omega

theorem has_pushStmt (b : Body) (stmt : Stmt) (range : TextRange) (n : NodeId) :
    (b.pushStmt stmt range).2.Has n ↔ b.Has n ∨ n = .stmt (b.pushStmt stmt range).1 := by
  cases n with
  | stmt s =>
    obtain ⟨i⟩ := s
    simp only [Has, pushStmt, List.length_append, List.length_singleton, NodeId.stmt.injEq,
      StmtId.mk.injEq]
    omega
  | expr e => simp [Has, pushStmt]

theorem mentions_pushExpr (b : Body) (expr : Expr) (range : TextRange) (n : NodeId) :
    (b.pushExpr expr range).2.mentions n =
      if n = .expr (b.pushExpr expr range).1 then expr.mentions else b.mentions n := by
  cases n with
  | stmt s =>
    rw [if_neg (by simp)]
    rfl
  | expr e =>
    simp only [mentions, expr?, exprNode?_pushExpr, NodeId.expr.injEq]
    by_cases he : e = (b.pushExpr expr range).1
    · simp only [if_pos he, Option.map_some]
    · simp only [if_neg he]

theorem mentions_pushStmt (b : Body) (stmt : Stmt) (range : TextRange) (n : NodeId) :
    (b.pushStmt stmt range).2.mentions n =
      if n = .stmt (b.pushStmt stmt range).1 then stmt.mentions else b.mentions n := by
  cases n with
  | stmt s =>
    simp only [mentions, stmt?, stmtNode?_pushStmt, NodeId.stmt.injEq]
    by_cases hs : s = (b.pushStmt stmt range).1
    · simp only [if_pos hs, Option.map_some]
    · simp only [if_neg hs]
  | expr e =>
    rw [if_neg (by simp)]
    rfl

theorem makes_pushExpr {b : Body} (hm : ∀ n ∈ Expr.mentions expr, b.Has n) (range : TextRange) :
    b.Makes [.expr (b.pushExpr expr range).1] (b.pushExpr expr range).2 := by
  apply makes_singleton (has_pushExpr b expr range)
  · exact Nat.lt_irrefl _
  · exact fun n hn => by rw [mentions_pushExpr, if_neg hn]
  · simpa only [mentions_pushExpr, if_true] using hm

theorem makes_pushStmt {b : Body} (hm : ∀ n ∈ Stmt.mentions stmt, b.Has n) (range : TextRange) :
    b.Makes [.stmt (b.pushStmt stmt range).1] (b.pushStmt stmt range).2 := by
  apply makes_singleton (has_pushStmt b stmt range)
  · exact Nat.lt_irrefl _
  · exact fun n hn => by rw [mentions_pushStmt, if_neg hn]
  · simpa only [mentions_pushStmt, if_true] using hm

theorem Ordered.pushExpr {b : Body} (h : b.Ordered) (hm : ∀ n ∈ Expr.mentions expr, b.Has n)
    (range : TextRange) : (b.pushExpr expr range).2.Ordered := by
  apply h.add (makes_pushExpr hm range)
  · intro s t he
    cases he
  · intro d e he hlt
    cases he
    exact hlt
  · simp only [maxDepth, Body.pushExpr, List.length_append, List.length_singleton, NodeId.weight]
    omega

theorem Ordered.pushStmt {b : Body} (h : b.Ordered) (hm : ∀ n ∈ Stmt.mentions stmt, b.Has n)
    (range : TextRange) : (b.pushStmt stmt range).2.Ordered := by
  apply h.add (makes_pushStmt hm range)
  · intro s t he hlt
    cases he
    exact hlt
  · intro d e he
    cases he
  · simp only [maxDepth, Body.pushStmt, List.length_append, List.length_singleton, NodeId.weight]
    omega

theorem exprNode?_modifyExpr (b : Body) (e : ExprId) (f : ExprNode → ExprNode) (d : ExprId) :
    (b.modifyExpr e f).exprNode? d =
      if d = e then (b.exprNode? d).map f else b.exprNode? d := by
  obtain ⟨i⟩ := d
  obtain ⟨j⟩ := e
  simp only [modifyExpr, exprNode?, ExprId.mk.injEq, List.getElem?_modify, eq_comm (a := i)]
  by_cases h : j = i <;> simp [h]

theorem has_modifyExpr (b : Body) (e : ExprId) (f : ExprNode → ExprNode) (n : NodeId) :
    (b.modifyExpr e f).Has n ↔ b.Has n := by
  cases n <;> simp [Has, modifyExpr]

theorem mentions_modifyExpr (b : Body) (e : ExprId)
    (hf : ∀ node, (f node).expr = ExprNode.expr node) (n : NodeId) :
    (b.modifyExpr e f).mentions n = b.mentions n := by
  cases n with
  | stmt s => rfl
  | expr d =>
    have he : (b.modifyExpr e f).expr? d = b.expr? d := by
      simp only [expr?, exprNode?_modifyExpr]
      split
      · simp [Option.map_map, Function.comp_def, hf]
      · rfl
    simp only [mentions, he]

theorem makes_modifyExpr (b : Body) (e : ExprId)
    (hf : ∀ node, (f node).expr = ExprNode.expr node) : b.Makes [] (b.modifyExpr e f) where
  has := by simpa using has_modifyExpr b e f
  old := fun n _ => mentions_modifyExpr b e hf n
  order := trivial

theorem Ordered.modifyExpr {b : Body} (h : b.Ordered) (e : ExprId)
    (hf : ∀ node, (f node).expr = ExprNode.expr node) : (b.modifyExpr e f).Ordered := by
  obtain ⟨stamp, h⟩ := h
  have hd : (b.modifyExpr e f).maxDepth = b.maxDepth := by simp [maxDepth, Body.modifyExpr]
  simp only [Ordered]
  refine ⟨stamp, ?_, ?_, ?_, ?_, ?_⟩
  · exact fun n hn => h.weight_le n ((has_modifyExpr b e f n).1 hn)
  · exact fun n hn => hd ▸ h.le_maxDepth n ((has_modifyExpr b e f n).1 hn)
  · intro n m hnm
    obtain ⟨hb, hlt⟩ := h.mention n m (mentions_modifyExpr b e hf n ▸ hnm)
    exact ⟨(has_modifyExpr b e f m).2 hb, hlt⟩
  · exact fun s t hst ht => h.stmts_lt s t hst ((has_modifyExpr b e f _).1 ht)
  · exact fun d c hdc hc => h.exprs_lt d c hdc ((has_modifyExpr b e f _).1 hc)

theorem Valid.pushExpr {b : Body} (h : b.Valid table) (hm : ∀ n ∈ Expr.mentions expr, b.Has n)
    (range : TextRange) : (b.pushExpr expr range).2.Valid table where
  ordered := h.ordered.pushExpr hm range
  rooted := h.rooted
  typed := by
    intro e t ht
    simp only [typing?, exprNode?_pushExpr] at ht
    split at ht
    · cases ht
    · exact h.typed e t ht

theorem Valid.pushStmt {b : Body} (h : b.Valid table) (hm : ∀ n ∈ Stmt.mentions stmt, b.Has n)
    (range : TextRange) : (b.pushStmt stmt range).2.Valid table where
  ordered := h.ordered.pushStmt hm range
  rooted := fun s hs => (has_pushStmt b stmt range _).2 (.inl (h.rooted s hs))
  typed := h.typed

theorem Valid.modifyExpr {b : Body} (h : b.Valid table) (e : ExprId)
    (hf : ∀ node, (f node).expr = ExprNode.expr node)
    (ht : ∀ node t, (f node).typing = some t → node.typing = some t ∨ table.Has t.ty) :
    (b.modifyExpr e f).Valid table where
  ordered := h.ordered.modifyExpr e hf
  rooted := h.rooted
  typed := by
    intro d t hd
    simp only [typing?, exprNode?_modifyExpr] at hd
    split at hd
    · obtain ⟨node, hn, hty⟩ := Option.bind_eq_some_iff.1 hd
      obtain ⟨old, ho, rfl⟩ := Option.map_eq_some_iff.1 hn
      rcases ht old t hty with hty | hty
      · exact h.typed d t (by simp [typing?, ho, hty])
      · exact hty
    · exact h.typed d t hd

theorem Valid.setTyping {b : Body} (h : b.Valid table) (e : ExprId) {t : Typing}
    (ht : table.Has t.ty) : (b.setTyping e t).Valid table := by
  apply h.modifyExpr e
  · exact fun _ => rfl
  · intro node u hu
    cases hu
    exact .inr ht

theorem Valid.setPackageRef {b : Body} (h : b.Valid table) (e : ExprId) (p : PackagePath) :
    (b.setPackageRef e p).Valid table :=
  h.modifyExpr e (fun _ => rfl) fun _ _ hu => .inl hu

theorem Valid.markType {b : Body} (h : b.Valid table) (e : ExprId) : (b.markType e).Valid table :=
  h.modifyExpr e (fun _ => rfl) fun _ _ hu => .inl hu

theorem Valid.type? {b : Body} (h : b.Valid table) (ht : b.type? e = some ty) : table.Has ty := by
  obtain ⟨t, he, rfl⟩ := Option.map_eq_some_iff.1 ht
  exact h.typed e t he

end SwitchCover.Body

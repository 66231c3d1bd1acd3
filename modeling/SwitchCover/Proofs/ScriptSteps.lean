import SwitchCover.Proofs.WorkspaceValid

namespace SwitchCover

/-- The changes that a command may make to the program once the types that it refers to are in the
table of `r`. -/
inductive Command.May (w : Workspace) (r : Program) : Command → Change → Prop where
  | types : May w r c .types
  | package : May w r (.decl (.package path name)) (.package path name)
  | addImport : May w r (.decl (.addImport importer imported)) (.link importer imported)
  | defineType (hr : ScriptM.internRef ref w = .ok ty { w with program := r })
    (hu : TypeDecl.underlying d = w.program.behind r.types ty) :
    May w r (.decl (.defineType ref path name)) (.declare path name (.type d))
  | aliasType (hr : ScriptM.internRef ref w = .ok ty { w with program := r })
    (hu : TypeDecl.underlying d = w.program.behind r.types ty) :
    May w r (.decl (.aliasType ref path name)) (.declare path name (.type d))
  | declareFunc :
    May w r (.decl (.declareFunc params results path name)) (.declare path name (.func ty))
  | declareConst :
    May w r (.decl (.declareConst ref value path name)) (.declare path name (.const d))
  | declareIota (hn : name ∈ names) :
    May w r (.decl (.declareIota ref path names)) (.declare path name (.const d))
  | declareVar : May w r (.decl (.declareVar ref path name)) (.declare path name (.var ty))
  | openFile : May w r (.decl (.openFile package path text)) .text
  | importPackage (hl : w.level = .file f) :
    May w r (.file (.importPackage path)) (.link f.package path)
  | importAs (hl : w.level = .file f) : May w r (.file (.importAs name path)) (.link f.package path)
  | finish (hl : w.level = .file f) : May w r (.file .finish) (.finish f)

def DeclCommand.IsIota : DeclCommand → Prop
  | declareIota _ _ _ => True
  | _ => False

def Command.Fits : Command → Level → Prop
  | .decl _, .program => True
  | .file _, .file _ => True
  | .func _, .func _ _ _ => True
  | _, _ => False

namespace Workspace

def funcState (w : Workspace) (f : OpenFile) (g : OpenFunc) : FuncState :=
  ⟨w.program, f, g, w.events⟩

def setFunc (w : Workspace) (s : FuncState) (h : Handles) : Workspace :=
  { w with program := s.program, events := s.events, level := .func s.file s.func h }

/-- Everything that a command can do to a workspace, with the error if it fails. -/
inductive Does (w : Workspace) : Command → Option StepError → Workspace → Prop where
  | misplaced (hc : ¬c.Fits w.level) : Does w c (some .misplaced) w
  | declares (hl : w.level = .program) (ht : w.program.Changes .types r)
    (hq : r.Becomes ((Command.decl c).May w r) q) (tys : List TyId)
    (hs : ∀ ty ∈ tys, ty ∈ w.slots ∨ q.types.Has ty) :
    Does w (.decl c) none { w with program := q, slots := tys }
  | stops (hl : w.level = .program) (hq : w.program.Changes .types q)
    (hc : c.IsIota → ∀ b, e ≠ .build b) : Does w (.decl c) (some e) { w with program := q }
  /-- A name in the middle of a list cannot be declared. -/
  | breaks (hl : w.level = .program) (hr : ScriptM.internRef ref w = .ok ty { w with program := r })
    (ht : w.program.Changes .types r)
    (hq : r.Becomes ((Command.decl (.declareIota ref package names)).May w r) q)
    (hk : r.StopsAt package names k) (ha : r.AddsConsts q package ty 0 (names.take k)) :
    Does w (.decl (.declareIota ref package names)) (some e) { w with program := q }
  | opens (hl : w.level = .program) (hp : package ∈ w.program.packages.keys) :
    Does w (.decl (.openFile package path text)) none { w with
      program := { w.program with files := (w.program.files.add ⟨path, text⟩).2 }
      level := .file ⟨(w.program.files.add ⟨path, text⟩).1, package, [], [], 0⟩ }
  | imports (hl : w.level = .file f) (hc : c = .importPackage path ∨ c = .importAs name path)
    (hq : w.program.Changes (.link f.package path) q) :
    Does w (.file c) none { w with
      program := q, level := .file { f with imports := f.imports ++ [⟨name, path⟩] } }
  | unknown (hl : w.level = .file f)
    (hc : c = .importPackage path ∨ ∃ name, c = .importAs name path) : Does w (.file c) (some e) w
  | starts (hl : w.level = .file f) (hf : f.locate? w.program.files "func" = some r)
    (hn : OpenFile.locate? { f with cursor := r.stop } w.program.files name = some r') :
    Does w (.file (.openFunc name)) none { w with
      level := .func { f with cursor := r'.stop } ⟨name, r', .empty, ∅⟩ .empty }
  | headless (hl : w.level = .file f) (hf : f.locate? w.program.files "func" = none) :
    Does w (.file (.openFunc name)) (some e) w
  | nameless (hl : w.level = .file f) (hf : f.locate? w.program.files "func" = some r)
    (hn : OpenFile.locate? { f with cursor := r.stop } w.program.files name = none) :
    Does w (.file (.openFunc name)) (some e) { w with level := .file { f with cursor := r.stop } }
  | closes (hl : w.level = .file f) (hq : w.program.Changes (.finish f) q) :
    Does w (.file .finish) none { w with program := q, level := .program }
  | drops (hl : w.level = .file f) : Does w (.file .drop) none { w with level := .program }
  | runs (hl : w.level = .func f g h) (hr : c.run w.slots h (w.funcState f g) = .ok p t) :
    Does w (.func c) none (w.setFunc t (h.add p))
  | fails (hl : w.level = .func f g h) (hr : c.run w.slots h (w.funcState f g) = .error e t) :
    Does w (.func c) (some e) (w.setFunc t h)
  | ends (hl : w.level = .func f g h) (hi : ids ⊆ h.stmts) :
    Does w (.func (.finish root)) none { w with
      level := .file { f with funcs := f.funcs ++ [g.finish ids] } }
  | unpicked (hl : w.level = .func f g h) :
    Does w (.func (.finish root)) (some .unknownHandle) w
  | leaves (hl : w.level = .func f g h) : Does w (.func .drop) none { w with level := .file f }

end Workspace

namespace FileM

theorem liftDecl_outcome {s : FileState} {x : DeclM α} (hx : Outcome s.program x Q E) :
    Outcome s (liftDecl x) (fun a t => ∃ q, Q a q ∧ t = { s with program := q })
      fun e t => ∃ q, E e q ∧ t = { s with program := q } := by
  refine hx.lift (fun q => { s with program := q }) ?_
  cases hr : x s.program <;> simp only [liftDecl, hr, mapState]

theorem importAs_outcome (s : FileState) (name : String) (path : PackagePath) :
    Outcome s (importAs name path)
      (fun _ t => ∃ q, s.program.Changes (.link s.file.package path) q ∧
        t = ⟨q, { s.file with imports := s.file.imports ++ [⟨name, path⟩] }⟩)
      fun _ t => t = s := by
  apply Outcome.get
  apply (liftDecl_outcome (DeclM.addImport_outcome s.program s.file.package path)).bind
  · rintro _ _ _ ⟨q, hq, rfl⟩
    exact ⟨q, hq, rfl⟩
  · rintro e _ ⟨_, rfl, rfl⟩
    rfl

theorem importPackage_outcome (s : FileState) (path : PackagePath) :
    Outcome s (importPackage path)
      (fun _ t => ∃ name q, s.program.Changes (.link s.file.package path) q ∧
        t = ⟨q, { s.file with imports := s.file.imports ++ [⟨name, path⟩] }⟩)
      fun _ t => t = s := by
  have hr : Outcome s.program (DeclM.requirePackage path) (fun _ q => q = s.program)
      fun _ q => q = s.program := by
    simp only [Outcome, DeclM.requirePackage_eq]
    cases s.program.package? path <;> rfl
  apply (liftDecl_outcome hr).bind
  · rintro pkg _ _ ⟨_, rfl, rfl⟩
    exact (importAs_outcome s pkg.name path).mono (fun _ _ ht => ⟨pkg.name, ht⟩) fun _ _ ht => ht
  · rintro e _ ⟨_, rfl, rfl⟩
    rfl

end FileM

namespace ScriptM

open Workspace (Does)

variable {w : Workspace}

def Performs (w : Workspace) (c : Command) (v : Workspace) (x : ScriptM α) : Prop :=
  Outcome v x (fun _ u => w.Does c none u) fun e u => w.Does c (some e) u

theorem runDecl_outcome {x : DeclM α} (hx : Outcome w.program x Q E) :
    Outcome w (runDecl x) (fun a v => ∃ q, Q a q ∧ v = { w with program := q })
      fun e v => ∃ q, E e q ∧ v = { w with program := q } := by
  refine hx.lift (fun q => { w with program := q }) ?_
  cases hr : x w.program <;> simp only [runDecl, hr, mapState]

theorem runFile_outcome {x : FileM α} (hx : Outcome ⟨w.program, f⟩ x Q E) :
    Outcome w (runFile f x)
      (fun a v => ∃ s, Q a s ∧ v = { w with program := s.program, level := .file s.file })
      fun e v => ∃ s, E e s ∧ v = { w with program := s.program, level := .file s.file } := by
  refine hx.lift (fun s => { w with program := s.program, level := .file s.file }) ?_
  cases hr : x ⟨w.program, f⟩ <;> simp only [runFile, hr, mapState]

theorem runFunc_outcome {x : FuncM α} (hx : Outcome (w.funcState f g) x Q E) :
    Outcome w (runFunc f g h x) (fun a v => ∃ s, Q a s ∧ v = w.setFunc s h)
      fun e v => ∃ s, E e s ∧ v = w.setFunc s h := by
  refine hx.lift (fun s => w.setFunc s h) ?_
  rw [runFunc, Workspace.funcState]
  cases x ⟨w.program, f, g, w.events⟩ <;> rfl

/-- A computation that goes on with the types of references. -/
theorem interned_bind {x : ScriptM α} {y : EStateM StepError TypeTable α} {k : α → ScriptM β}
    (hl : w.level = .program) (ht : w.program.Changes .types p) (hp : p.Valid)
    (hy : Interns p.types y Q) (hx : x { w with program := p } =
      mapState (fun types => { w with program := { p with types } }) (y p.types))
    (hk : ∀ a r, x { w with program := p } = .ok a { w with program := r } →
      p.Changes .types r → r.Valid → Q a r.types →
      Performs w (.decl c) { w with program := r } (k a)) :
    Performs w (.decl c) { w with program := p } (x >>= k) := by
  apply (Outcome.lift hy _ hx).bind
  · rintro a _ hr ⟨types, ⟨hl, ha⟩, rfl⟩
    have hc : p.Changes .types { p with types } := .types hl
    exact hk a _ hr hc (hc.types_valid hp) ha
  · rintro e _ ⟨types, ⟨ht', he⟩, rfl⟩
    exact .stops hl (ht.types_trans (.types ht')) fun _ => he

theorem internRef_bind {k : TyId → ScriptM α} (h : w.Valid) (hl : w.level = .program)
    (hk : ∀ ty r, internRef ref w = .ok ty { w with program := r } →
      w.program.Changes .types r → r.Valid → r.types.Has ty →
      Performs w (.decl c) { w with program := r } (k ty)) :
    Performs w (.decl c) w (internRef ref >>= k) := by
  have hi := TypeRef.intern_interns h.program.types h.slots ref
  refine interned_bind hl (.types_refl h.program) h.program hi ?_ hk
  rw [internRef]
  cases ref.intern w.slots w.program.types <;> rfl

theorem internRefs_bind {k : List TyId → ScriptM α} (h : w.Valid) (hl : w.level = .program)
    (ht : w.program.Changes .types p) (hp : p.Valid)
    (hk : ∀ tys r, p.Changes .types r → r.Valid → (∀ ty ∈ tys, r.types.Has ty) →
      Performs w (.decl c) { w with program := r } (k tys)) :
    Performs w (.decl c) { w with program := p } (internRefs refs >>= k) := by
  have hs : ∀ ty ∈ w.slots, p.types.Has ty :=
    fun ty hty => (h.slots ty hty).mono ht.types_extends
  refine interned_bind hl ht hp (TypeRef.internAll_interns hp.types hs refs) ?_
    fun tys r _ => hk tys r
  rw [internRefs]
  cases TypeRef.internAll w.slots refs p.types <;> rfl

theorem has_of_internRef (h : w.Valid) (hr : internRef ref w = .ok ty u) :
    u.program.types.Has ty := by
  rw [internRef] at hr
  split at hr
  next hi =>
    cases hr
    exact (Outcome.ok (TypeRef.intern_interns h.program.types h.slots ref) hi).2
  next => cases hr

theorem behind_of_types (h : Program.Changes p .types r) (table : TypeTable) (ty : TyId) :
    r.behind table ty = p.behind table ty := by
  cases h with
  | types => rfl

theorem mem_addSlot {q : Program} (hty : q.types.Has ty) :
    ∀ u ∈ w.slots ++ [ty], u ∈ w.slots ∨ q.types.Has u := by
  intro u hu
  rcases List.mem_append.1 hu with hu | hu
  · exact .inl hu
  · exact .inr (List.mem_singleton.1 hu ▸ hty)

theorem addSlot_performs {x : DeclM TyId} (hl : w.level = .program)
    (ht : w.program.Changes .types r)
    (hx : Outcome r x (fun t q => q.types.Has t ∧ r.Becomes (Change.Declares path name I) q)
      fun _ q => r.Changes .types q)
    (hI : ∀ item, I item → (Command.decl c).May w r (.declare path name item))
    (hc : ¬c.IsIota) :
    Performs w (.decl c) { w with program := r } (runDecl x >>= addSlot) := by
  apply (runDecl_outcome (w := { w with program := r }) hx).bind
  · rintro t _ _ ⟨q, ⟨hq, hb⟩, rfl⟩
    refine .declares hl ht (hb.mono ?_) _ (mem_addSlot hq)
    rintro _ (rfl | ⟨item, hi, rfl⟩)
    · exact .types
    · exact hI item hi
  · rintro e _ ⟨q, hq, rfl⟩
    exact .stops hl (ht.types_trans hq) fun hi => absurd hi hc

theorem declare_performs (hl : w.level = .program) (ht : w.program.Changes .types r)
    (hi : item.Valid r.types ⟨path, name⟩)
    (hm : (Command.decl c).May w r (.declare path name item))
    (hc : ¬c.IsIota) :
    Performs w (.decl c) { w with program := r }
      (do runDecl (.declare path name item); return Answer.done) := by
  apply (runDecl_outcome (w := { w with program := r }) (DeclM.declare_outcome hi)).bind
  · rintro _ _ _ ⟨q, ⟨_, _, -, -, -, hd⟩, rfl⟩
    exact .declares hl ht (hd.becomes hm) w.slots fun ty hty => .inl hty
  · rintro e _ ⟨q, ⟨rfl, -⟩, rfl⟩
    exact .stops hl ht fun hi => absurd hi hc

theorem decl_performs (h : w.Valid) (hl : w.level = .program) (c : DeclCommand) :
    Performs w (.decl c) w (decl c) := by
  have hkeep : w.program.Changes .types w.program := .types_refl h.program
  cases c with
  | package path name =>
    apply (runDecl_outcome (DeclM.addPackage_outcome w.program path name)).bind
    · rintro _ _ _ ⟨q, hq, rfl⟩
      exact .declares hl hkeep (hq.becomes .package) w.slots fun ty hty => .inl hty
    · rintro e _ ⟨q, rfl, rfl⟩
      exact .stops hl hkeep False.elim
  | addImport importer imported =>
    apply (runDecl_outcome (DeclM.addImport_outcome w.program importer imported)).bind
    · rintro _ _ _ ⟨q, hq, rfl⟩
      exact .declares hl hkeep (hq.becomes .addImport) w.slots fun ty hty => .inl hty
    · rintro e _ ⟨q, rfl, rfl⟩
      exact .stops hl hkeep False.elim
  | type ref =>
    apply internRef_bind h hl
    intro ty r _ ht _ hty
    exact .declares hl ht (.refl r) _ (mem_addSlot hty)
  | defineType ref package name =>
    apply internRef_bind h hl
    intro ty r hr ht hv hty
    refine addSlot_performs hl ht (DeclM.defineType_outcome hv hty package name) ?_ id
    rintro _ ⟨decl, rfl, hu⟩
    exact .defineType hr (hu.trans (behind_of_types ht _ ty))
  | aliasType target package name =>
    apply internRef_bind h hl
    intro ty r hr ht hv hty
    refine addSlot_performs hl ht (DeclM.aliasType_outcome hv hty package name) ?_ id
    rintro _ ⟨decl, rfl, hu⟩
    exact .aliasType hr (hu.trans (behind_of_types ht _ ty))
  | declareFunc params results package name =>
    apply internRefs_bind h hl hkeep h.program
    intro ps r ht hv hps
    apply internRefs_bind h hl ht hv
    intro rs u hu hv' hrs
    have hps (ty : TyId) (hty : ty ∈ ps) : u.types.Has ty := (hps ty hty).mono hu.types_extends
    have hx := DeclM.declareFunc_outcome hv' hps hrs package name
    refine addSlot_performs hl (ht.types_trans hu) hx ?_ id
    rintro _ ⟨ty, rfl⟩
    exact .declareFunc
  | declareConst ref value package name =>
    apply internRef_bind h hl
    intro ty r _ ht _ hty
    exact declare_performs hl ht (DeclM.valid_const hty value _) .declareConst id
  | declareIota ref package names =>
    apply internRef_bind h hl
    intro ty r hr ht hv hty
    have hx := DeclM.declareIota_outcome hv hty package 0 names
      ((Command.decl (.declareIota ref package names)).May w r) fun _ hn _ => .declareIota hn
    apply (runDecl_outcome (w := { w with program := r }) hx).bind
    · rintro _ _ _ ⟨q, hq, rfl⟩
      exact .declares hl ht hq w.slots fun ty hty => .inl hty
    · rintro e _ ⟨q, ⟨hq, k, hk, ha⟩, rfl⟩
      exact .breaks hl hr ht hq hk ha
  | declareVar ref package name =>
    apply internRef_bind h hl
    intro ty r _ ht _ hty
    exact declare_performs hl ht (DeclM.valid_var hty _) .declareVar id
  | openFile package path text =>
    apply (runDecl_outcome (DeclM.openFile_outcome w.program package path text)).bind
    · rintro _ _ _ ⟨_, ⟨hp, rfl, rfl⟩, rfl⟩
      exact .opens hl hp
    · rintro e _ ⟨q, rfl, rfl⟩
      exact .stops hl hkeep False.elim

theorem file_performs (h : w.Valid) (hl : w.level = .file f) (c : FileCommand) :
    Performs w (.file c) w (file f c) := by
  have hw : { w with level := .file f } = w := by rw [← hl]
  cases c with
  | importPackage path =>
    apply (runFile_outcome (FileM.importPackage_outcome ⟨w.program, f⟩ path)).bind
    · rintro _ _ _ ⟨_, ⟨name, q, hq, rfl⟩, rfl⟩
      exact .imports hl (.inl rfl) hq
    · rintro e _ ⟨_, rfl, rfl⟩
      exact hw.symm ▸ .unknown hl (.inl rfl)
  | importAs name path =>
    apply (runFile_outcome (FileM.importAs_outcome ⟨w.program, f⟩ name path)).bind
    · rintro _ _ _ ⟨_, ⟨q, hq, rfl⟩, rfl⟩
      exact .imports hl (.inr rfl) hq
    · rintro e _ ⟨_, rfl, rfl⟩
      exact hw.symm ▸ .unknown hl (.inr ⟨name, rfl⟩)
  | openFunc name =>
    simp only [Performs, Outcome, file, bind, EStateM.bind, runFile, FileM.locateFunc,
      FileM.locate_eq]
    cases hf : f.locate? w.program.files "func" with
    | none =>
      change w.Does (.file (.openFunc name)) _ { w with level := .file f }
      rw [hw]
      exact .headless hl hf
    | some r =>
      simp only
      cases hn : OpenFile.locate? { f with cursor := r.stop } w.program.files name with
      | none => exact .nameless hl hf hn
      | some r' => exact .starts hl hf hn
  | finish => exact .closes hl (.finish (h.file hl))
  | drop => exact .drops hl

theorem func_performs (hl : w.level = .func f g h) (c : FuncCommand) :
    Performs w (.func c) w (func f g h c) := by
  have hw : w.setFunc (w.funcState f g) h = w := by
    rw [Workspace.setFunc, Workspace.funcState, ← hl]
  unfold func
  split
  next root =>
    apply (runFunc_outcome (FuncM.pickAll_outcome h.stmts root (w.funcState f g))).bind
    · rintro ids _ _ ⟨_, ⟨rfl, hi, -⟩, rfl⟩
      exact .ends hl hi
    · rintro e _ ⟨_, ⟨rfl, rfl, -⟩, rfl⟩
      exact hw.symm ▸ .unpicked hl
  next => exact .leaves hl
  next =>
    have hx : Outcome (w.funcState f g)
        (do let product ← c.run w.slots h; let s ← get; return (product, s.file, s.func))
        (fun a t => c.run w.slots h (w.funcState f g) = .ok a.1 t ∧ a.2 = (t.file, t.func))
        fun e t => c.run w.slots h (w.funcState f g) = .error e t :=
      (Outcome.of_cases (fun _ _ hr => hr) fun _ _ hr => hr).bind
        (fun _ _ _ hr => ⟨hr, rfl⟩) fun _ _ hr => hr
    apply Outcome.get
    apply (runFunc_outcome hx).bind
    · rintro ⟨product, _⟩ _ _ ⟨t, ⟨hr, rfl⟩, rfl⟩
      exact .runs hl hr
    · rintro e _ ⟨t, hr, rfl⟩
      exact .fails hl hr

theorem step_performs (h : w.Valid) (c : Command) : Performs w c w (step c) := by
  have hmis (hc : ¬c.Fits w.level) : Performs w c w (throw .misplaced : ScriptM Answer) :=
    .misplaced hc
  apply Outcome.get
  cases hl : w.level with
  | program =>
    cases c with
    | decl c => exact decl_performs h hl c
    | file c => exact hmis (by simp only [hl, Command.Fits, not_false_eq_true])
    | func c => exact hmis (by simp only [hl, Command.Fits, not_false_eq_true])
  | file f =>
    cases c with
    | decl c => exact hmis (by simp only [hl, Command.Fits, not_false_eq_true])
    | file c => exact file_performs h hl c
    | func c => exact hmis (by simp only [hl, Command.Fits, not_false_eq_true])
  | func f g hs =>
    cases c with
    | decl c => exact hmis (by simp only [hl, Command.Fits, not_false_eq_true])
    | file c => exact hmis (by simp only [hl, Command.Fits, not_false_eq_true])
    | func c => exact func_performs hl c

end ScriptM

namespace Workspace

variable {w v : Workspace}

def error? (w : Workspace) (c : Command) : Option StepError :=
  match ScriptM.step c w with
  | .ok _ _ => none
  | .error e _ => some e

theorem after_does (h : w.Valid) (c : Command) : w.Does c (w.error? c) (w.after c) := by
  have hs : Outcome w (ScriptM.step c) (fun _ v => w.Does c none v)
      fun e v => w.Does c (some e) v := ScriptM.step_performs h c
  rw [error?, after]
  cases hx : ScriptM.step c w with
  | ok a v => exact hs.ok hx
  | error e v => exact hs.error hx

theorem Valid.funcState (h : w.Valid) (hl : w.level = .func f g hs) : (w.funcState f g).Valid :=
  ⟨h.program, (h.func hl).2.1⟩

theorem Valid.run_ok {c : FuncCommand} (h : w.Valid) (hl : w.level = .func f g hs)
    (hr : c.run w.slots hs (w.funcState f g) = .ok p t) :
    (w.funcState f g).Leads t ∧ p.Valid t.func.body :=
  (FuncCommand.run_ensures (h.funcState hl) (h.func hl).2.2 h.slots c).ok hr

theorem Valid.run_error {c : FuncCommand} (h : w.Valid) (hl : w.level = .func f g hs)
    (hr : c.run w.slots hs (w.funcState f g) = .error e t) :
    (w.funcState f g).Leads t ∧ ∀ b, e = .build b → t = c.leftover (w.funcState f g) :=
  (FuncCommand.run_ensures (h.funcState hl) (h.func hl).2.2 h.slots c).error hr

theorem Valid.setFunc (h : w.Valid) (hl : w.level = .func f g hs)
    (ht : (w.funcState f g).Leads t) (hh : hs'.Valid t.func.body) : (w.setFunc t hs').Valid := by
  refine ⟨ht.valid.program, fun ty hty => (h.slots ty hty).mono ht.types, ?_, ht.valid.func, hh⟩
  rw [ht.file]
  exact ((h.func hl).1.mono ht.grows).setCursor _

theorem Does.changes (hd : w.Does c e v) (h : w.Valid) :
    ∃ r, w.program.Changes .types r ∧ r.Becomes (c.May w r) v.program := by
  have hkeep : w.program.Changes .types w.program := .types_refl h.program
  cases hd with
  | declares _ ht hq => exact ⟨_, ht, hq⟩
  | stops _ hq => exact ⟨_, hq, .refl _⟩
  | breaks _ _ ht hq => exact ⟨_, ht, hq⟩
  | opens hl hp => exact ⟨_, hkeep, (Program.Changes.text _).becomes .openFile⟩
  | imports hl hc hq =>
    rcases hc with rfl | rfl
    · exact ⟨_, hkeep, hq.becomes (.importPackage hl)⟩
    · exact ⟨_, hkeep, hq.becomes (.importAs hl)⟩
  | closes hl hq => exact ⟨_, hkeep, hq.becomes (.finish hl)⟩
  | runs hl hr => exact ⟨_, (h.run_ok hl hr).1.changes, .refl _⟩
  | fails hl hr => exact ⟨_, (h.run_error hl hr).1.changes, .refl _⟩
  | _ => exact ⟨_, hkeep, .refl _⟩

/-- All that a command changes in the program is what it may change. -/
theorem Does.becomes (hd : w.Does c e v) (h : w.Valid) :
    w.program.Becomes (fun change => ∃ r, c.May w r change) v.program := by
  obtain ⟨r, ht, hq⟩ := hd.changes h
  exact (ht.becomes ⟨r, .types⟩).trans (hq.mono fun _ hm => ⟨r, hm⟩)

theorem Does.valid (hd : w.Does c e v) (h : w.Valid) : v.Valid := by
  have hq := (hd.becomes h).extends h.program
  have hslots (ty : TyId) (hty : ty ∈ w.slots) : v.program.types.Has ty :=
    (h.slots ty hty).mono hq.2.types
  cases hd with
  | misplaced _ | unknown _ _ | headless _ _ | unpicked _ => exact h
  | declares hl _ _ tys hs =>
    refine ⟨hq.1, ?_, by rw [hl]; trivial⟩
    intro ty hty
    rcases hs ty hty with hty | hty
    · exact hslots ty hty
    · exact hty
  | stops hl _ _ => exact ⟨hq.1, hslots, by rw [hl]; trivial⟩
  | breaks hl _ _ _ _ _ => exact ⟨hq.1, hslots, by rw [hl]; trivial⟩
  | opens hl hp => exact ⟨hq.1, hslots, OpenFile.valid_new h.program hp _⟩
  | imports hl hc hq' =>
    have hg := (hq'.leads h.program fun f hf => by cases hf).2
    exact ⟨hq.1, hslots, ((h.file hl).mono hg).addImport hq'.imports⟩
  | starts hl hf hn =>
    have hf := (h.file hl).setCursor
    exact ⟨hq.1, hslots, hf _, ⟨Body.valid_empty _, fun n ty hn => (by cases hn)⟩,
      Handles.valid_empty _⟩
  | nameless hl _ _ => exact ⟨hq.1, hslots, (h.file hl).setCursor _⟩
  | closes _ _ => exact ⟨hq.1, hslots, trivial⟩
  | drops _ => exact ⟨hq.1, hslots, trivial⟩
  | runs hl hr =>
    obtain ⟨ht, hp⟩ := h.run_ok hl hr
    exact h.setFunc hl ht (((h.func hl).2.2.mono ht.has).add hp)
  | fails hl hr =>
    have ht := (h.run_error hl hr).1
    exact h.setFunc hl ht ((h.func hl).2.2.mono ht.has)
  | ends hl hi =>
    obtain ⟨hf, hg, hh⟩ := h.func hl
    refine ⟨hq.1, hslots, hf.stored, hf.newest, hf.loaded, hf.imports, ?_⟩
    intro k hk
    rcases List.mem_append.1 hk with hk | hk
    · exact hf.bodies k hk
    · rw [List.mem_singleton.1 hk]
      exact hg.finish fun id hid => hh.stmts id (hi hid)
  | leaves hl => exact ⟨hq.1, hslots, (h.func hl).1⟩

def closes (w : Workspace) (c : Command) : List FileId :=
  match c, ScriptM.step c w with
  | .file .finish, .ok (.file id) _ => [id]
  | _, _ => []

/-- What a command does to the program. -/
structure Steps (w v : Workspace) (closed : List FileId) : Prop where
  valid : v.Valid
  program : w.program.Extends v.program
  keys : v.program.checkedFiles.keys = w.program.checkedFiles.keys ++ closed

theorem after_finish (h : w.Valid) :
    w.Steps (w.after (.file .finish)) (w.closes (.file .finish)) := by
  obtain ⟨p, slots, events, level⟩ := w
  cases level with
  | program => exact ⟨h, .refl _, (List.append_nil _).symm⟩
  | file f =>
    obtain ⟨hv, he, hk⟩ := h.program.closeFile h.level
    exact ⟨⟨hv, fun ty hty => (h.slots ty hty).mono he.types, trivial⟩, he, hk⟩
  | func f g hs => exact ⟨h, .refl _, (List.append_nil _).symm⟩

/-- Only the command for it finishes a file. -/
theorem Does.leads (hd : w.Does c e v) (h : w.Valid) (hc : c ≠ .file .finish) :
    w.program.Leads v.program := by
  apply (hd.becomes h).leads h.program
  rintro f ⟨r, hm⟩
  cases hm
  exact hc rfl

theorem after_steps (h : w.Valid) (c : Command) : w.Steps (w.after c) (w.closes c) := by
  by_cases hc : c = .file .finish
  · subst hc
    exact after_finish h
  · have hg := ((after_does h c).leads h hc).2
    refine ⟨(after_does h c).valid h, hg.extends, ?_⟩
    have hn : w.closes c = [] := by
      unfold closes
      split
      · exact absurd rfl hc
      · rfl
    rw [hn, List.append_nil, hg.checked]

theorem run_concat (w : Workspace) (cs : List Command) (c : Command) :
    w.run (cs ++ [c]) = (w.run cs).after c :=
  List.foldl_concat _ _ _ _

def closed (w : Workspace) : List Command → List FileId
  | [] => []
  | c :: cs => w.closes c ++ (w.after c).closed cs

theorem run_steps (h : w.Valid) (cs : List Command) : w.Steps (w.run cs) (w.closed cs) := by
  induction cs generalizing w with
  | nil => exact ⟨h, .refl _, (List.append_nil _).symm⟩
  | cons c cs ih =>
    have hc := after_steps h c
    have hcs := ih hc.valid
    refine ⟨hcs.valid, hc.program.trans hcs.program, ?_⟩
    rw [closed, ← List.append_assoc, ← hc.keys]
    exact hcs.keys

/-- Every script leads from the empty workspace to a valid one. -/
theorem run_valid (cs : List Command) : (empty.run cs).Valid :=
  (run_steps valid_empty cs).valid

end Workspace

end SwitchCover

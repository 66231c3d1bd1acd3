import SwitchCover.Proofs.WholeRuns

namespace SwitchCover

/-- What a program stores twice is the same in both places. -/
structure Program.ViewsAgree (p : Program) : Prop where
  nodes : p.graph.nodes = p.packages.keys
  path : ∀ path pkg, p.package? path = some pkg → pkg.path = path
  imports : ∀ path pkg, p.package? path = some pkg →
    pkg.imports.Nodup ∧ (p.graph.imports path).Nodup ∧
      ∀ q, q ∈ pkg.imports ↔ q ∈ p.graph.imports path
  /-- A package lists its files in the order in which they were finished and opened. -/
  files : ∀ path pkg, p.package? path = some pkg →
    pkg.files = (p.filesOf path).map CheckedFile.file ∧ pkg.files.Pairwise (·.index < ·.index)
  finished : ∀ id f, p.checkedFile? id = some f →
    f.file = id ∧ (p.files.get? id).isSome ∧ f.package ∈ p.packages.keys
  imported : ∀ id f, p.checkedFile? id = some f → ∀ i ∈ f.imports,
    p.Imports f.package i.path ∧ i.path ∈ (p.closure f.package).paths

namespace Program

variable {p : Program}

theorem Valid.mem_imports (h : p.Valid) (hp : p.package? path = some pkg) :
    q ∈ p.graph.imports path ↔ q ∈ pkg.imports := by
  rw [ImportGraph.imports, Sorted.mem_ofList, ImportGraph.targetsOf, h.graph, hp]
  rfl

theorem nodup_imports (g : ImportGraph) (path : PackagePath) : (g.imports path).Nodup := by
  have hs : (g.imports path).Pairwise (· < ·) := Sorted.pairwise_ofList _
  exact hs.imp fun hlt => ne_of_irrefl hlt

theorem Valid.files_pairwise (h : p.Valid) (hp : p.package? path = some pkg) :
    pkg.files.Pairwise (·.index < ·.index) := by
  rw [h.listed path pkg hp, List.pairwise_map]
  exact h.filesOf_pairwise path

end Program

/-- The views of a program agree after every script, also while a file or a function is open. -/
theorem Workspace.run_viewsAgree (cs : List Command) : (empty.run cs).program.ViewsAgree := by
  have h : (empty.run cs).program.Valid := (run_valid cs).program
  constructor
  case nodes => exact h.nodes
  case path => exact h.pathsAgree
  case imports =>
    intro path pkg hp
    refine ⟨(h.packages path pkg hp).nodup, Program.nodup_imports _ _, ?_⟩
    exact fun q => (h.mem_imports hp).symm
  case files =>
    intro path pkg hp
    exact ⟨h.listed path pkg hp, h.files_pairwise hp⟩
  case finished =>
    intro id f hf
    have hv := h.files id f hf
    refine ⟨hv.file, ?_, hv.loaded⟩
    exact Option.isSome_iff_exists.2 ⟨_, List.getElem?_eq_getElem hv.stored⟩
  case imported =>
    intro id f hf i hi
    have him := (h.files id f hf).imports i hi
    exact ⟨him, h.mem_closure.2 (.single him)⟩

end SwitchCover

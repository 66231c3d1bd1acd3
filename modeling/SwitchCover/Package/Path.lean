namespace SwitchCover

/-- Import path of a package, such as `example.com/app/color`. -/
structure PackagePath where
  text : String
deriving DecidableEq

namespace PackagePath

def lastSegment (p : PackagePath) : String :=
  String.ofList (p.text.toList.reverse.takeWhile (· ≠ '/')).reverse

instance : LT PackagePath := ⟨fun p q => p.text < q.text⟩

instance (p q : PackagePath) : Decidable (p < q) :=
  inferInstanceAs (Decidable (p.text < q.text))

end PackagePath

/-- A declared type that is no alias, identified by its package and name. -/
structure NamedType where
  package : PackagePath
  name : String
deriving DecidableEq

namespace NamedType

def qualified (t : NamedType) : String :=
  t.package.text ++ "." ++ t.name

instance : LT NamedType :=
  ⟨fun s t => s.package < t.package ∨ s.package = t.package ∧ s.name < t.name⟩

instance (s t : NamedType) : Decidable (s < t) :=
  inferInstanceAs (Decidable (s.package < t.package ∨ s.package = t.package ∧ s.name < t.name))

end NamedType

end SwitchCover

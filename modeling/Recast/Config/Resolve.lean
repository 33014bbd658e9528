import Recast.Config

/-!
The module specifier of a Java name.

A name belongs to the first module that has a package map enclosing it. Seen from a file of the same
module it is imported by a relative path, which starts with a dot; seen from another module, by the
module's own name followed by the place inside it. A package stands for its index file.
-/

namespace Recast.Config

/-- The specifier that leads to `target` from a file of the given package in the same module. -/
def relativeSpecifier (m : ModuleMap) (fromPackage target : String) :
    Except ConfigFault String :=
  let fromPath := Text.replaceChar '.' '/' fromPackage
  match m.findPackageMap fromPath with
  | none => .error (.unmappedPackage m.name fromPackage)
  | some p =>
    let start := p.place fromPath
    let relative := SlashPath.relativeTo (if target = "" then "." else target)
      (if start = "" then "." else start)
    .ok (if relative.toList.head? = some '.' then relative else "./" ++ relative)

/-- The specifier under which a place of a module is imported from other modules; the module itself
is imported by its name as it is configured. -/
def foreignSpecifier (m : ModuleMap) (qualifiedName target : String) :
    Except ConfigFault Word :=
  if !m.destModule.isSet then .error (.noDestination qualifiedName m.name)
  else if target = "" then .ok m.destModule
  else .ok (.text (m.destModule.display ++ "/" ++ target))

/-- The place of a name inside its module; a package's is its index file. -/
def placeOf (p : PackageMap) (javaPath : String) (isPackage : Bool) : String :=
  let target := p.place javaPath
  if isPackage then (if target = "" then "index" else SlashPath.join target "index") else target

/-- The specifier of a class or package, seen from a file of a module and package; none if no module
maps the name. -/
def resolveName (modules : List ModuleMap) (qualifiedName fromModule fromPackage : String)
    (isPackage : Bool) : Except ConfigFault (Option Word) :=
  let javaPath := Text.replaceChar '.' '/' qualifiedName
  match modules.findSome? fun m => (m.findPackageMap javaPath).map (m, ·) with
  | none => .ok none
  | some (m, p) =>
    let target := placeOf p javaPath isPackage
    some <$> if m.name = fromModule then .text <$> relativeSpecifier m fromPackage target
      else foreignSpecifier m qualifiedName target

end Recast.Config

import SchemaForms.Loader.File
import SchemaForms.Proofs.Path.Climbing
import SchemaForms.Proofs.Path.Spellings
import SchemaForms.Proofs.Session.Sandboxed

/-!
# The directory of a loader

The directory loader refuses a resource if and only if its name climbs out of the loader's directory.
What it reads otherwise lies below the directory, at the end of the way that the name goes.

A session has a sandbox of its own, which knows nothing of the loader. It has been written apart from
the loader's check, and it looks at other texts, but what passes it never fails the check: as long as
traversal is not allowed, no request of a run is refused for leaving the loader's directory.
-/

namespace SchemaForms

namespace DirectoryLoader

variable {disk : Disk} {current directory root location place : String} {source : Source}

section Name

theorem relative_nameOf (location : String) : Path.isAbsolute (nameOf location) = false := by
  rw [nameOf, Path.normalize_of_relative (Path.isAbsolute_dropSlashes location)]
  exact Path.isAbsolute_nameOf (Path.plain_components _)

/-- The name of a resource climbs just if its location does, behind the slashes in front. -/
theorem climbs_nameOf_iff :
    Path.climbs (nameOf location) = true ↔ Path.ClimbsOut (Path.dropSlashes location) :=
  Path.climbs_normalize_iff (Path.isAbsolute_dropSlashes location)

theorem climbs_nameOf_iff_mem :
    Path.climbs (nameOf location) = true ↔ ".." ∈ Path.names (nameOf location) :=
  Path.climbs_normalize_iff_mem (Path.isAbsolute_dropSlashes location)

/-- A resource is read by its name, unless that climbs. -/
theorem name_of_fs (named : location ≠ "") : DirectoryLoader.name ⟨.fs, location⟩ =
    if Path.climbs (nameOf location) then .error (Fetch.error .escapesRoot location)
    else .ok (nameOf location) := by
  simp only [name, Fetch.expectKind, Fetch.expectLocation, if_pos, if_neg named]
  cases Path.climbs (nameOf location) <;> rfl

theorem climbs_of_name_eq_error
    (failed : DirectoryLoader.name source = .error (Fetch.error .escapesRoot place)) :
    source.kind = .fs ∧ Path.climbs (nameOf source.location) = true := by
  obtain ⟨kind, location⟩ := source
  cases kind with
  | file | url => cases failed
  | fs =>
      by_cases named : location = ""
      · subst named
        cases failed
      · rw [name_of_fs named] at failed
        split at failed
        · rename_i climbs
          exact ⟨rfl, climbs⟩
        · cases failed

end Name

section Fetch

/-- What has a name is read from the disk by its name. -/
theorem fetch_of_name {name : String} (named : DirectoryLoader.name source = .ok name) :
    fetch disk root source = match disk (Path.onDisk root name) with
      | .error fault => .error (Fetch.unreadable name fault source.location)
      | .ok raw => Fetch.document source raw := by
  rw [fetch, named]
  rfl

theorem fetch_of_name_error {error : Error} (failed : DirectoryLoader.name source = .error error) :
    fetch disk root source = .error error := by
  rw [fetch, failed]
  rfl

/-- What goes wrong with a source that has a name is something else than its climbing. -/
theorem climbs_of_fetch_eq_error
    (failed : fetch disk root source = .error (Fetch.error .escapesRoot place)) :
    source.kind = .fs ∧ Path.climbs (nameOf source.location) = true := by
  cases named : DirectoryLoader.name source with
  | error error =>
      rw [fetch_of_name_error named] at failed
      exact climbs_of_name_eq_error (named.trans (congrArg Except.error (Except.error.inj failed)))
  | ok name =>
      rw [fetch_of_name named] at failed
      split at failed
      · unfold Fetch.unreadable at failed
        split at failed <;> cases failed
      · obtain ⟨fault, -, same⟩ := except_mapError_eq_error.mp failed
        cases same

end Fetch

/-- The directory of a loader begins at the root of the disk, and nothing in it goes up. -/
theorem passed_root (start : Path.isAbsolute current = true)
    (rooted : DirectoryLoader.root current directory = .ok root) :
    root = "/" ++ Text.join '/' (Path.names root) ∧ Path.Passed true (Path.names root).reverse := by
  have passed := Path.passed_components (Path.append current directory)
  have plain := Path.plain_components (Path.append current directory)
  rw [Path.isAbsolute_append start] at passed
  unfold DirectoryLoader.root Fetch.locate at rooted
  split at rooted
  · cases rooted
  · obtain rfl := Except.ok.inj rooted
    rw [Path.onDisk, Path.names_slash, Path.names_join plain]
    exact ⟨rfl, passed⟩

/-- A request that the sandbox of a root document permits is never refused for climbing. -/
theorem fetch_of_permits {options : ResolveOptions} {base : Source}
    (permits : Permits options current base source) :
    fetch disk root source ≠ .error (Fetch.error .escapesRoot place) := by
  intro failed
  obtain ⟨isName, climbs⟩ := climbs_of_fetch_eq_error failed
  have up := climbs_nameOf_iff_mem.mp climbs
  cases permits with
  | url | file => cases isName
  | fs _ level =>
      rw [nameOf] at up
      simp only [Origin.ofSource] at level
      exact level up

/-- Resources are refused just if their names climb out of the loader's directory. Any other is read
from a path that is the directory's with a relative name behind it, in which nothing goes up. A run
that keeps to the sandbox of its root document requests nothing that would be refused for climbing,
whichever disk and directory the loader has. -/
theorem fetch_contained (disk : Disk) {current directory root : String}
    (start : Path.isAbsolute current = true)
    (rooted : DirectoryLoader.root current directory = .ok root) :
    (∀ location, location ≠ "" →
      (fetch disk root ⟨.fs, location⟩ = .error (Fetch.error .escapesRoot location) ↔
        Path.ClimbsOut (Path.dropSlashes location)) ∧
      (¬ Path.ClimbsOut (Path.dropSlashes location) →
        ∃ path, DirectoryLoader.path root ⟨.fs, location⟩ = .ok path ∧
          root = "/" ++ Text.join '/' (Path.names root) ∧
          path = "/" ++ Text.join '/' (Path.names root ++ Path.components (nameOf location)) ∧
          Path.isAbsolute (nameOf location) = false ∧ ".." ∉ Path.names (nameOf location) ∧
          fetch disk root ⟨.fs, location⟩ = match disk path with
            | .error fault => .error (Fetch.unreadable (nameOf location) fault location)
            | .ok raw => Fetch.document ⟨.fs, location⟩ raw)) ∧
    ∀ (session : Session) (document : Document) (payload : Json),
      session.options.allowTraversal = false →
        ∀ request ∈ (session.runRoot document payload).2.requests, ∀ place,
          fetch disk root request ≠ .error (Fetch.error .escapesRoot place) := by
  obtain ⟨written, passed⟩ := passed_root start rooted
  have above : Path.isAbsolute root = true := by
    rw [written]
    exact Path.isAbsolute_concat rfl _
  refine ⟨fun location named => ⟨?_, fun inside => ?_⟩, ?_⟩
  · rw [← climbs_nameOf_iff]
    refine ⟨fun failed => (climbs_of_fetch_eq_error failed).2, fun climbs => ?_⟩
    apply fetch_of_name_error
    rw [name_of_fs named, if_pos climbs]
  · rw [← climbs_nameOf_iff, Bool.not_eq_true] at inside
    have level : ".." ∉ Path.names (nameOf location) := by
      rw [← climbs_nameOf_iff_mem, inside]
      exact Bool.false_ne_true
    have relative := relative_nameOf location
    have read : DirectoryLoader.name ⟨.fs, location⟩ = .ok (nameOf location) := by
      rw [name_of_fs named, inside]
      rfl
    have below := Path.onDisk_level above passed relative level
    refine ⟨Path.onDisk root (nameOf location), ?_, written, below, relative, level,
      fetch_of_name read⟩
    rw [DirectoryLoader.path, read]
    rfl
  · intro session document payload closed request mem place
    obtain none | sandboxed := Session.runRoot_sandboxed closed document payload
    · rw [none] at mem
      cases mem
    · exact fetch_of_permits (sandboxed.permitted request mem)

namespace Sample

/-- A disk with one file, in a directory below that of the loader. -/
def tree : FileTree :=
  FileTree.addFile {} "/r/n/a" [0x7B, 0x7D]

end Sample

/-- A file is read in spite of the slashes in front of its location and of the `..` in it. A location
that comes back to the loader's directory after it has left it is refused. The resource beside the root
document is requested, and not refused. -/
theorem fetch_contained_sample :
    Path.isAbsolute "/" = true ∧ DirectoryLoader.root "/" "x/../r" = .ok "/r" ∧
    fetch Sample.tree.read "/r" ⟨.fs, "/n/../../r/n/a"⟩ =
      .error (Fetch.error .escapesRoot "/n/../../r/n/a") ∧
    (∃ path, DirectoryLoader.path "/r" ⟨.fs, "//n/./b/../a"⟩ = .ok path ∧ path = "/r/n/a" ∧
      fetch Sample.tree.read "/r" ⟨.fs, "//n/./b/../a"⟩ =
        Fetch.document ⟨.fs, "//n/./b/../a"⟩ [0x7B, 0x7D]) ∧
    ⟨.fs, "forms/n.json"⟩ ∈ (SchemaForms.Sample.session.runRoot SchemaForms.Sample.root
      SchemaForms.Sample.payload).2.requests ∧
    fetch Sample.tree.read "/r" ⟨.fs, "forms/n.json"⟩ ≠
      .error (Fetch.error .escapesRoot "forms/n.json") := by
  have start : Path.isAbsolute "/" = true := by decide
  have rooted : DirectoryLoader.root "/" "x/../r" = .ok "/r" :=
    eq_ok_of_toOption (by decide +kernel)
  obtain ⟨resources, requests⟩ := fetch_contained Sample.tree.read start rooted
  have climbs : Path.ClimbsOut (Path.dropSlashes "/n/../../r/n/a") := by decide +kernel
  have inside : ¬ Path.ClimbsOut (Path.dropSlashes "//n/./b/../a") := by decide +kernel
  have refused := (resources "/n/../../r/n/a" (by decide)).1.mpr climbs
  obtain ⟨path, named, -, below, -, -, read⟩ := (resources "//n/./b/../a" (by decide)).2 inside
  obtain rfl : path = "/r/n/a" := below.trans (by decide +kernel)
  have found : Sample.tree.read "/r/n/a" = .ok [0x7B, 0x7D] := eq_ok_of_toOption (by decide +kernel)
  rw [found] at read
  have requested : ⟨.fs, "forms/n.json"⟩ ∈ (SchemaForms.Sample.session.runRoot
      SchemaForms.Sample.root SchemaForms.Sample.payload).2.requests := by decide +kernel
  have permitted := requests SchemaForms.Sample.session SchemaForms.Sample.root
    SchemaForms.Sample.payload rfl ⟨.fs, "forms/n.json"⟩ requested "forms/n.json"
  exact ⟨start, rooted, refused, ⟨_, named, rfl, read⟩, requested, permitted⟩

end DirectoryLoader

end SchemaForms

import Mathlib.Data.List.Induction
import Mathlib.Data.List.Infix

/-!
# Hierarchies of names

Objects that are found by name: some of them are directories, and a directory has links, each from a
name to an object.  A link leads to an object, and links one after another are a path.  In a
hierarchy all that is linked is reached from the root, and a directory has one link that leads to it
at most; other objects may have several.  So a directory has one path (`eq_of_resolve`), and this is
what makes it possible to say where paths lead after a change: a path is concerned by what happens
to a link if and only if it begins with the path of that link.

The changes are those of a file system.  A link is added (`Adds`) or removed (`Removes`), moved,
perhaps in the place of another (`Moves`), or exchanged with another (`Exchanges`).  For each there
are lemmas about where paths lead afterwards, and about which objects there still are.
-/

variable {ν κ : Type}

/-- Where a path leads from an object. -/
def follow (links : ν → κ → Option ν) : ν → List κ → Option ν
  | start, [] => some start
  | start, name :: rest => (links start name).bind fun next => follow links next rest

/-- All links are the same but these. -/
def AgreeExcept (links links' : ν → κ → Option ν) (changed : List (ν × κ)) : Prop :=
  ∀ directory name, (directory, name) ∉ changed → links' directory name = links directory name

section Follow

variable {links links' : ν → κ → Option ν} {start object : ν} {path : List κ}

theorem follow_append {first second : List κ} :
    follow links start (first ++ second) =
      (follow links start first).bind fun next => follow links next second := by
  induction first generalizing start with
  | nil => rfl
  | cons _ _ ih =>
    rw [List.cons_append, follow, follow, Option.bind_assoc]
    congr 1
    funext next
    exact ih

theorem follow_concat {name : κ} :
    follow links start (path ++ [name]) =
      (follow links start path).bind fun next => links next name := by
  rw [follow_append]
  congr 1
  funext next
  exact Option.bind_fun_some _

/-- Where a path leads does not change as long as none of the links on it does. -/
theorem follow_congr
    (h : ∀ before name directory, before ++ [name] <+: path →
      follow links start before = some directory → links' directory name = links directory name) :
    follow links' start path = follow links start path := by
  induction path generalizing start with
  | nil => rfl
  | cons name rest ih =>
    have hfirst : links' start name = links start name :=
      h [] name start (List.prefix_append [name] rest) rfl
    rw [follow, follow, hfirst]
    cases hnext : links start name with
    | none => rfl
    | some =>
      refine ih fun before name' directory hbefore hfollow => ?_
      refine h (name :: before) name' directory ?_ ?_
      · exact (List.prefix_cons_inj name).2 hbefore
      · rw [follow, hnext]
        exact hfollow

theorem follow_mono (h : ∀ directory name next, links directory name = some next →
    links' directory name = some next) (hpath : follow links start path = some object) :
    follow links' start path = some object := by
  induction path generalizing start with
  | nil => exact hpath
  | cons _ _ ih =>
    obtain ⟨next, hnext, hrest⟩ := Option.bind_eq_some_iff.1 hpath
    rw [follow, h _ _ _ hnext]
    exact ih hrest

end Follow

/-- Directories, and what they have links to. -/
structure Hierarchy (ν κ : Type) where
  root : ν
  isDirectory : ν → Prop
  links : ν → κ → Option ν
  isDirectory_root : isDirectory root
  isDirectory_of_link : ∀ {directory name object}, links directory name = some object →
    isDirectory directory
  link_ne_root : ∀ {directory name}, links directory name ≠ some root
  link_unique : ∀ {directory directory' name name' object}, isDirectory object →
    links directory name = some object → links directory' name' = some object →
    directory = directory' ∧ name = name'
  reached : ∀ {directory name object}, links directory name = some object →
    ∃ path, follow links root path = some directory

namespace Hierarchy

variable (T : Hierarchy ν κ)

/-- Where a path leads from the root. -/
def resolve (path : List κ) : Option ν := follow T.links T.root path

/-- The objects there are. -/
def Live (object : ν) : Prop := ∃ path, T.resolve path = some object

/-- There is another link to an object. -/
def LinkedElsewhere (object directory : ν) (name : κ) : Prop :=
  ∃ directory' name', (directory', name') ≠ (directory, name) ∧
    T.links directory' name' = some object

variable {T} {T' : Hierarchy ν κ} {object directory directory' : ν} {name name' : κ}
  {path path' : List κ}

theorem resolve_concat (hpath : T.resolve path = some directory) :
    T.resolve (path ++ [name]) = T.links directory name := by
  rw [resolve, follow_concat, ← resolve, hpath, Option.bind_some]

theorem resolve_append_cons (hpath : T.resolve path = some directory)
    (hlink : T.links directory name = some object) {rest : List κ} :
    T.resolve (path ++ name :: rest) = follow T.links object rest := by
  rw [resolve, follow_append, ← resolve, hpath, Option.bind_some, follow, hlink, Option.bind_some]

/-- The last link of a path. -/
theorem exists_of_resolve_concat (h : T.resolve (path ++ [name]) = some object) :
    ∃ directory, T.resolve path = some directory ∧ T.links directory name = some object := by
  rw [resolve, follow_concat] at h
  exact Option.bind_eq_some_iff.1 h

/-- **A directory has one path.** -/
theorem eq_of_resolve (hdirectory : T.isDirectory object) (hpath : T.resolve path = some object)
    (hpath' : T.resolve path' = some object) : path = path' := by
  induction path using List.reverseRecOn generalizing object path' with
  | nil =>
    cases path' using List.reverseRecOn with
    | nil => rfl
    | append_singleton =>
      obtain ⟨_, _, hlink⟩ := exists_of_resolve_concat hpath'
      cases hpath
      exact absurd hlink T.link_ne_root
  | append_singleton _ _ ih =>
    obtain ⟨directory, hinit, hlink⟩ := exists_of_resolve_concat hpath
    cases path' using List.reverseRecOn with
    | nil =>
      cases hpath'
      exact absurd hlink T.link_ne_root
    | append_singleton =>
      obtain ⟨directory', hinit', hlink'⟩ := exists_of_resolve_concat hpath'
      obtain ⟨rfl, rfl⟩ := T.link_unique hdirectory hlink hlink'
      rw [ih (T.isDirectory_of_link hlink) hinit hinit']

/-- A path that comes to a directory and leaves it by a link begins with the path of the link. -/
theorem append_inj_of_resolve (hlink : T.links directory name = some object)
    (hpath : T.resolve path = some directory) (hpath' : T.resolve path' = some directory) :
    path' = path :=
  eq_of_resolve (T.isDirectory_of_link hlink) hpath' hpath

/-- Below a link there is no way back to its directory. -/
theorem follow_ne_directory (hpath : T.resolve path = some directory)
    (hlink : T.links directory name = some object) {rest : List κ} :
    follow T.links object rest ≠ some directory := by
  intro hrest
  rw [← resolve_append_cons hpath hlink] at hrest
  have heq := append_inj_of_resolve hlink hpath hrest
  have hlength := congrArg List.length heq
  rw [List.length_append, List.length_cons] at hlength
  omega

/-- What there is is the root or has a link. -/
theorem live_iff : T.Live object ↔
    object = T.root ∨ ∃ directory name, T.links directory name = some object := by
  constructor
  · rintro ⟨path, hpath⟩
    cases path using List.reverseRecOn with
    | nil => exact .inl (Option.some.inj hpath).symm
    | append_singleton _ name =>
      obtain ⟨directory, -, hlink⟩ := exists_of_resolve_concat hpath
      exact .inr ⟨directory, name, hlink⟩
  · rintro (rfl | ⟨directory, name, hlink⟩)
    · exact ⟨[], rfl⟩
    · obtain ⟨path, hpath⟩ := T.reached hlink
      exact ⟨path ++ [name], (resolve_concat hpath).trans hlink⟩

theorem live_of_link (h : T.links directory name = some object) : T.Live object :=
  live_iff.2 (.inr ⟨directory, name, h⟩)

theorem live_root : T.Live T.root := ⟨[], rfl⟩

/-! ## Changes -/

/-- Where a path leads that goes through none of the links that change. -/
theorem resolve_untouched {changed : List (ν × κ)} (hroot : T'.root = T.root)
    (h : AgreeExcept T.links T'.links changed)
    (hpath : ∀ directory name before, (directory, name) ∈ changed →
      T.resolve before = some directory → ¬before ++ [name] <+: path) :
    T'.resolve path = T.resolve path := by
  rw [resolve, resolve, hroot]
  exact follow_congr fun before name directory hbefore hfollow =>
    h directory name fun hchanged => hpath directory name before hchanged hfollow hbefore

/-- A link is added, from a name that had none. -/
structure Adds (T T' : Hierarchy ν κ) (directory : ν) (name : κ) (object : ν) : Prop where
  root : T'.root = T.root
  agree : AgreeExcept T.links T'.links [(directory, name)]
  free : T.links directory name = none
  added : T'.links directory name = some object

/-- A link is removed.  A directory that is removed has no links. -/
structure Removes (T T' : Hierarchy ν κ) (directory : ν) (name : κ) (object : ν) : Prop where
  root : T'.root = T.root
  agree : AgreeExcept T.links T'.links [(directory, name)]
  link : T.links directory name = some object
  removed : T'.links directory name = none
  empty : ∀ below, T.links object below = none

/-- A link is moved.  It takes the place of another one if there is one, and a directory that is
replaced has no links; and it is not moved below itself. -/
structure Moves (T T' : Hierarchy ν κ) (directory : ν) (name : κ) (directory' : ν) (name' : κ)
    (object : ν) : Prop where
  root : T'.root = T.root
  agree : AgreeExcept T.links T'.links [(directory, name), (directory', name')]
  link : T.links directory name = some object
  removed : T'.links directory name = none
  placed : T'.links directory' name' = some object
  apart : ∀ rest, follow T.links object rest ≠ some directory'
  empty : ∀ replaced, T.links directory' name' = some replaced →
    ∀ below, T.links replaced below = none

/-- Two links are exchanged, neither of which is below the other. -/
structure Exchanges (T T' : Hierarchy ν κ) (directory : ν) (name : κ) (directory' : ν) (name' : κ)
    (object object' : ν) : Prop where
  root : T'.root = T.root
  agree : AgreeExcept T.links T'.links [(directory, name), (directory', name')]
  link : T.links directory name = some object
  link' : T.links directory' name' = some object'
  placed : T'.links directory name = some object'
  placed' : T'.links directory' name' = some object
  apart : ∀ rest, follow T.links object rest ≠ some directory'
  apart' : ∀ rest, follow T.links object' rest ≠ some directory

/-! ### Where paths lead -/

section Paths

variable {x y : ν} {rest : List κ}

theorem Adds.links_of_links (h : T.Adds T' directory name x) {parent : ν} {below : κ}
    (hlink : T.links parent below = some y) : T'.links parent below = some y := by
  rw [h.agree parent below, hlink]
  intro hmem
  cases List.mem_singleton.1 hmem
  rw [h.free] at hlink
  cases hlink

theorem Adds.resolve (h : T.Adds T' directory name x) (hpath : T.resolve path = some y) :
    T'.resolve path = some y := by
  rw [Hierarchy.resolve, h.root]
  exact follow_mono (fun _ _ _ => h.links_of_links) hpath

theorem Removes.resolve_away (h : T.Removes T' directory name x)
    (hdirectory : T.resolve path = some directory) (hpath : ¬path ++ [name] <+: path') :
    T'.resolve path' = T.resolve path' := by
  refine resolve_untouched h.root h.agree fun d n before hchanged hbefore => ?_
  cases List.mem_singleton.1 hchanged
  rwa [append_inj_of_resolve h.link hdirectory hbefore]

/-- Below what is removed there is nothing. -/
theorem Removes.eq_of_resolve (h : T.Removes T' directory name x)
    (hdirectory : T.resolve path = some directory)
    (hpath : T.resolve (path ++ name :: rest) = some y) : rest = [] ∧ y = x := by
  rw [resolve_append_cons hdirectory h.link] at hpath
  cases rest with
  | nil => exact ⟨rfl, (Option.some.inj hpath).symm⟩
  | cons below =>
    rw [follow, h.empty below] at hpath
    cases hpath

/-- A link that has been added is removed again. -/
theorem Adds.resolve_of_removes {T'' : Hierarchy ν κ} (h : T.Adds T' directory name x)
    (h' : T'.Removes T'' directory name y) : T''.resolve path = T.resolve path := by
  rw [Hierarchy.resolve, Hierarchy.resolve, h'.root, h.root]
  refine follow_congr fun before n d _ _ => ?_
  by_cases hmem : (d, n) ∈ [(directory, name)]
  · cases List.mem_singleton.1 hmem
    rw [h'.removed, h.free]
  · rw [h'.agree d n hmem, h.agree d n hmem]

/-- What was below a link that is placed elsewhere is below that place. -/
theorem resolve_placed (hroot : T'.root = T.root)
    (hagree : AgreeExcept T.links T'.links [(directory, name), (directory', name')])
    (hlink : T.links directory name = some x) (hplaced : T'.links directory' name' = some x)
    (hapart : ∀ rest, follow T.links x rest ≠ some directory')
    (hpath : T.resolve path = some directory) (hpath' : T.resolve path' = some directory') :
    T'.resolve (path' ++ name' :: rest) = T.resolve (path ++ name :: rest) := by
  have hto : T'.resolve path' = some directory' := by
    rw [← hpath']
    refine resolve_untouched hroot hagree fun d n before hchanged hbefore hprefix => ?_
    obtain ⟨after, hafter⟩ := hprefix
    rw [List.append_assoc, List.singleton_append] at hafter
    rcases List.mem_cons.1 hchanged with heq | hchanged
    · -- The new place would be below the old one.
      cases heq
      rw [← hafter, resolve_append_cons hbefore hlink] at hpath'
      exact hapart after hpath'
    · -- The path would come to the directory twice.
      cases List.mem_singleton.1 hchanged
      cases hold : T.links directory' name' with
      | none =>
        rw [← hafter, resolve, follow_append, ← resolve, hbefore] at hpath'
        rw [Option.bind_some, follow, hold] at hpath'
        cases hpath'
      | some =>
        rw [← hafter, resolve_append_cons hbefore hold] at hpath'
        exact follow_ne_directory hbefore hold hpath'
  rw [resolve_append_cons hto hplaced, resolve_append_cons hpath hlink]
  refine follow_congr fun before n d _ hbefore => hagree d n fun hchanged => ?_
  rcases List.mem_cons.1 hchanged with heq | hchanged
  · cases heq
    exact follow_ne_directory hpath hlink hbefore
  · cases List.mem_singleton.1 hchanged
    exact hapart before hbefore

/-- A path that begins with neither of two links is not concerned by what happens to them. -/
theorem resolve_away_of_two {path0 : List κ} (hroot : T'.root = T.root)
    (hagree : AgreeExcept T.links T'.links [(directory, name), (directory', name')])
    (hpath : T.resolve path = some directory) (hpath' : T.resolve path' = some directory')
    (haway : ¬path ++ [name] <+: path0) (haway' : ¬path' ++ [name'] <+: path0)
    (hobject : T.resolve path0 = some y) : T'.resolve path0 = some y := by
  rw [← hobject]
  refine resolve_untouched hroot hagree fun d n before hchanged hbefore hprefix => ?_
  -- A path that goes on from a directory goes on by one of its links.
  obtain ⟨after, hafter⟩ := hprefix
  rw [List.append_assoc, List.singleton_append] at hafter
  obtain ⟨next, hnext⟩ : ∃ next, T.links d n = some next := by
    rw [← hafter, resolve, follow_append, ← resolve, hbefore, Option.bind_some, follow] at hobject
    obtain ⟨next, hnext, -⟩ := Option.bind_eq_some_iff.1 hobject
    exact ⟨next, hnext⟩
  have hwhole : ∀ {init : List κ}, init = before → init ++ [n] <+: path0 := by
    rintro init rfl
    exact ⟨after, by rw [List.append_assoc, List.singleton_append, hafter]⟩
  rcases List.mem_cons.1 hchanged with heq | hchanged
  · cases heq
    exact haway (hwhole (append_inj_of_resolve hnext hbefore hpath))
  · cases List.mem_singleton.1 hchanged
    exact haway' (hwhole (append_inj_of_resolve hnext hbefore hpath'))

/-- Below what is replaced there is nothing. -/
theorem Moves.eq_of_resolve (h : T.Moves T' directory name directory' name' x)
    (hdirectory : T.resolve path' = some directory')
    (hpath : T.resolve (path' ++ name' :: rest) = some y) :
    rest = [] ∧ T.links directory' name' = some y := by
  cases hreplaced : T.links directory' name' with
  | none =>
    rw [resolve, follow_append, ← resolve, hdirectory, Option.bind_some, follow, hreplaced] at hpath
    cases hpath
  | some replaced =>
    rw [resolve_append_cons hdirectory hreplaced] at hpath
    cases rest with
    | nil => exact ⟨rfl, hpath⟩
    | cons below =>
      rw [follow, h.empty replaced hreplaced below] at hpath
      cases hpath

end Paths

/-! ### Which objects there are -/

section Live

variable {x y z : ν}

theorem Adds.live (h : T.Adds T' directory name x) (hz : T.Live z) : T'.Live z := by
  obtain ⟨path, hpath⟩ := hz
  exact ⟨path, h.resolve hpath⟩

/-- What has a link that does not change is still there. -/
theorem live_of_agree {changed : List (ν × κ)} (hroot : T'.root = T.root)
    (h : AgreeExcept T.links T'.links changed) (hz : T.Live z)
    (hchanged : ∀ d n, (d, n) ∈ changed → T.links d n = some z → T'.Live z) : T'.Live z := by
  rcases live_iff.1 hz with rfl | ⟨d, n, hlink⟩
  · exact hroot ▸ live_root
  by_cases hmem : (d, n) ∈ changed
  · exact hchanged d n hmem hlink
  · exact live_of_link ((h d n hmem).trans hlink)

theorem Removes.live (h : T.Removes T' directory name x) (hz : T.Live z)
    (hother : z = x → T.LinkedElsewhere x directory name) : T'.Live z := by
  refine live_of_agree h.root h.agree hz fun d n hmem hlink => ?_
  cases List.mem_singleton.1 hmem
  cases h.link.symm.trans hlink
  obtain ⟨d, n, hne, hlink'⟩ := hother rfl
  refine live_of_link ((h.agree d n fun hmem => ?_).trans hlink')
  exact hne (List.mem_singleton.1 hmem)

theorem Moves.live (h : T.Moves T' directory name directory' name' x) (hz : T.Live z)
    (hother : T.links directory' name' = some z → z ≠ x →
      T.LinkedElsewhere z directory' name') : T'.Live z := by
  by_cases hzx : z = x
  · subst hzx
    exact live_of_link h.placed
  refine live_of_agree h.root h.agree hz fun d n hmem hlink => ?_
  rcases List.mem_cons.1 hmem with heq | hmem
  · cases heq
    cases h.link.symm.trans hlink
    exact absurd rfl hzx
  cases List.mem_singleton.1 hmem
  obtain ⟨d, n, hne, hlink'⟩ := hother hlink hzx
  refine live_of_link ((h.agree d n fun hmem => ?_).trans hlink')
  rcases List.mem_cons.1 hmem with heq | hmem
  · cases heq
    exact hzx (Option.some.inj (hlink'.symm.trans h.link))
  · exact hne (List.mem_singleton.1 hmem)

theorem Exchanges.live (h : T.Exchanges T' directory name directory' name' x y) (hz : T.Live z) :
    T'.Live z := by
  refine live_of_agree h.root h.agree hz fun d n hmem hlink => ?_
  rcases List.mem_cons.1 hmem with heq | hmem
  · cases heq
    cases h.link.symm.trans hlink
    exact live_of_link h.placed'
  cases List.mem_singleton.1 hmem
  cases h.link'.symm.trans hlink
  exact live_of_link h.placed

end Live

end Hierarchy

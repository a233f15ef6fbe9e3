import Mathlib

/-! Paths as `posixpath` takes them apart, and what they name in a tree without links. -/

namespace PosixPath

abbrev Path := List Char

def curdir : Path := ['.']
def pardir : Path := ['.', '.']

def isabs (path : Path) : Bool := path.head? = some '/'

def join (a b : Path) : Path :=
  if isabs b || a.isEmpty then b
  else if a.getLast? = some '/' then a ++ b
  else a ++ '/' :: b

/-- The root of `splitroot`. Two slashes are kept, three or more are one. -/
def root (path : Path) : Path :=
  match path with
  | '/' :: '/' :: '/' :: _ => ['/']
  | '/' :: '/' :: _ => ['/', '/']
  | '/' :: _ => ['/']
  | _ => []

/-- The loop of `normpath`. -/
def normComps (rooted : Bool) (newComps comps : List Path) : List Path :=
  comps.foldl (fun newComps comp =>
    if comp = [] ∨ comp = curdir then newComps
    else if comp ≠ pardir ∨ (rooted = false ∧ newComps = []) ∨ newComps.getLast? = some pardir then
      newComps ++ [comp]
    else newComps.dropLast) newComps

def normpath (path : Path) : Path :=
  let comps := (path.drop (root path).length).splitOn '/'
  let normed := root path ++ ['/'].intercalate (normComps (!(root path).isEmpty) [] comps)
  if normed.isEmpty then curdir else normed

/-- Where `cwd` is what `getcwd` returns. -/
def abspath (cwd path : Path) : Path := normpath (if isabs path then path else join cwd path)

/-- The components that count. -/
def components (path : Path) : List Path :=
  (path.splitOn '/').filter (fun comp => comp ≠ [] ∧ comp ≠ curdir)

/-- Going through components from a directory; the root is its own parent. -/
def walk (dir comps : List Path) : List Path :=
  comps.foldl (fun dir comp => if comp = pardir then dir.dropLast else dir ++ [comp]) dir

/-- The file that a path names, by the names on the way from the root to it. -/
def follow (dir : List Path) (path : Path) : List Path :=
  walk (if isabs path then [] else dir) (components path)

/-- A name of a directory entry. -/
structure Plain (name : Path) : Prop where
  nonempty : name ≠ []
  slash : '/' ∉ name
  curdir : name ≠ curdir
  pardir : name ≠ pardir

variable {dir comps : List Path} {path name : Path}

section Components

theorem slash_not_mem {comp : Path} (h : comp ∈ path.splitOn '/') : '/' ∉ comp := by
  induction path generalizing comp with
  | nil =>
    obtain rfl : comp = [] := by simpa using h
    simp
  | cons c path ih =>
    obtain ⟨first, rest, hsplit⟩ := List.exists_cons_of_ne_nil (List.splitOn_ne_nil '/' path)
    rw [hsplit] at ih
    rw [List.splitOn_cons_eq_if_modifyHead, hsplit] at h
    by_cases hc : c = '/'
    · rw [if_pos (by simpa using hc)] at h
      rcases List.mem_cons.mp h with rfl | h
      · simp
      · exact ih h
    · rw [if_neg (by simpa using hc), List.modifyHead_cons] at h
      rcases List.mem_cons.mp h with rfl | h
      · have hfirst := ih List.mem_cons_self
        simp [Ne.symm hc, hfirst]
      · exact ih (List.mem_cons_of_mem _ h)

theorem components_append (a b : Path) :
    components (a ++ '/' :: b) = components a ++ components b := by
  rw [components, List.splitOn_append_cons_self, List.filter_append]
  rfl

@[simp] theorem components_nil : components [] = [] := rfl

theorem components_slash (path : Path) : components ('/' :: path) = components path := by
  rw [← List.nil_append ('/' :: path), components_append]
  rfl

theorem components_root (path : Path) :
    components (path.drop (root path).length) = components path := by
  unfold root
  split <;> simp [components_slash]

theorem Plain.components (h : Plain name) : components name = [name] := by
  simp [PosixPath.components, List.splitOn_eq_singleton h.slash, h.nonempty, h.curdir]

/-- A component goes up, or is the name of an entry. -/
theorem plain_of_mem_components {comp : Path} (h : comp ∈ components path)
    (hup : comp ≠ pardir) : Plain comp := by
  obtain ⟨hmem, hcounts⟩ := List.mem_filter.mp h
  obtain ⟨hnonempty, hcurdir⟩ := of_decide_eq_true hcounts
  exact ⟨hnonempty, slash_not_mem hmem, hcurdir, hup⟩

theorem isabs_iff : isabs path = true ↔ ∃ rest, path = '/' :: rest := by
  cases path <;> simp [isabs]

theorem Plain.not_isabs (h : Plain name) : isabs name = false := by
  rw [← Bool.not_eq_true, isabs_iff]
  rintro ⟨rest, rfl⟩
  exact h.slash List.mem_cons_self

end Components

section Walk

theorem walk_append (dir comps comps' : List Path) :
    walk dir (comps ++ comps') = walk (walk dir comps) comps' := List.foldl_append

theorem walk_concat_plain (dir comps : List Path) (h : Plain name) :
    walk dir (comps ++ [name]) = walk dir comps ++ [name] := by
  rw [walk_append]
  simp [walk, h.pardir]

/-- Names are only walked into. -/
theorem walk_of_plain (dir : List Path) (h : ∀ comp ∈ comps, Plain comp) :
    walk dir comps = dir ++ comps := by
  induction comps using List.reverseRecOn with
  | nil => simp [walk]
  | append_singleton comps comp ih =>
    have hcomps : ∀ c ∈ comps, Plain c := fun c hc => h c (List.mem_append_left _ hc)
    rw [walk_concat_plain dir comps (h comp (by simp)), ih hcomps, List.append_assoc]

theorem plain_of_mem_walk (hdir : ∀ comp ∈ dir, Plain comp)
    (hcomps : ∀ comp ∈ comps, comp ≠ pardir → Plain comp) :
    ∀ comp ∈ walk dir comps, Plain comp := by
  induction comps generalizing dir with
  | nil => exact hdir
  | cons comp comps ih =>
    refine ih (fun c hc => ?_) (fun c hc => hcomps c (List.mem_cons_of_mem _ hc))
    dsimp only at hc
    by_cases hup : comp = pardir
    · rw [if_pos hup] at hc
      exact hdir c (List.mem_of_mem_dropLast hc)
    · rw [if_neg hup] at hc
      rcases List.mem_append.mp hc with hc | hc
      · exact hdir c hc
      · rw [List.mem_singleton.mp hc]
        exact hcomps comp List.mem_cons_self hup

/-- Where nothing above it is left to go up to, the loop of `normpath` walks. -/
theorem normComps_rooted (hdir : pardir ∉ dir) (comps : List Path) :
    normComps true dir comps = walk dir (comps.filter (fun comp => comp ≠ [] ∧ comp ≠ curdir)) := by
  induction comps generalizing dir with
  | nil => rfl
  | cons comp comps ih =>
    by_cases hcounts : comp = [] ∨ comp = curdir
    · have hskip : normComps true dir (comp :: comps) = normComps true dir comps := by
        rw [normComps, List.foldl_cons, if_pos hcounts]
        rfl
      have hdrop : ¬ (comp ≠ [] ∧ comp ≠ curdir) := by tauto
      rw [hskip, ih hdir, List.filter_cons_of_neg (by simpa using hdrop)]
    · have htop : dir.getLast? ≠ some pardir := fun htop => hdir (List.mem_of_getLast? htop)
      have hstep : normComps true dir (comp :: comps) =
          normComps true (if comp = pardir then dir.dropLast else dir ++ [comp]) comps := by
        rw [normComps, List.foldl_cons, if_neg hcounts]
        by_cases hup : comp = pardir <;> simp [hup, htop, normComps]
      rw [hstep, List.filter_cons_of_pos (by simpa using hcounts), ih]
      · rfl
      · split
        · exact fun hmem => hdir (List.mem_of_mem_dropLast hmem)
        · rename_i hup
          simp [hdir, Ne.symm hup]

end Walk

/-- A path of which the last part is taken from where the first one leads. -/
theorem follow_join (dir : List Path) (a b : Path) :
    follow dir (join a b) = follow (follow dir a) b := by
  by_cases hb : isabs b = true
  · simp [join, follow, hb]
  · rw [Bool.not_eq_true] at hb
    rcases List.eq_nil_or_concat' a with rfl | ⟨front, last, rfl⟩
    · simp [join, follow, walk, isabs]
    · have habs : ∀ rest, isabs (front ++ [last] ++ rest) = isabs (front ++ [last]) := by
        intro rest
        cases front <;> simp [isabs]
      have hjoin : isabs (join (front ++ [last]) b) = isabs (front ++ [last]) ∧
          components (join (front ++ [last]) b) = components (front ++ [last]) ++ components b := by
        by_cases hlast : last = '/'
        · subst hlast
          have hparts : components (front ++ ['/']) = components front := by
            rw [components_append, components_nil, List.append_nil]
          rw [join, if_neg (by simp [hb]), if_pos (by simp), habs, hparts, List.append_assoc]
          exact ⟨rfl, components_append front b⟩
        · rw [join, if_neg (by simp [hb]), if_neg (by simpa using hlast), habs]
          exact ⟨rfl, components_append _ b⟩
      rw [follow, hjoin.1, hjoin.2, walk_append, ← follow, follow.eq_1 _ b, hb]
      rfl

theorem Plain.follow (h : Plain name) (dir : List Path) : follow dir name = dir ++ [name] := by
  rw [PosixPath.follow, h.not_isabs, h.components]
  exact walk_concat_plain dir [] h

theorem components_intercalate (h : ∀ comp ∈ comps, Plain comp) :
    components (['/'].intercalate comps) = comps := by
  cases comps with
  | nil => rfl
  | cons comp comps =>
    rw [components, List.splitOn_intercalate '/' (fun c hc => (h c hc).slash)
      (List.cons_ne_nil _ _), List.filter_eq_self]
    intro c hc
    exact decide_eq_true ⟨(h c hc).nonempty, (h c hc).curdir⟩

theorem root_of_isabs (h : isabs path = true) : root path = ['/'] ∨ root path = ['/', '/'] := by
  obtain ⟨rest, rfl⟩ := isabs_iff.mp h
  unfold root
  split <;> simp_all

/-- The normal form of a path from the root names the same file, and is from the root. -/
theorem follow_normpath (h : isabs path = true) (dir : List Path) :
    follow dir (normpath path) = follow [] path := by
  have hnormed : normComps true [] ((path.drop (root path).length).splitOn '/') =
      follow [] path := by
    rw [normComps_rooted List.not_mem_nil]
    change walk [] (components (path.drop (root path).length)) = _
    rw [components_root, PosixPath.follow, if_pos h]
  have hplain : ∀ comp ∈ follow [] path, Plain comp := by
    rw [PosixPath.follow, if_pos h]
    exact plain_of_mem_walk (by simp) (fun comp hcomp => plain_of_mem_components hcomp)
  have hparts := components_intercalate hplain
  rcases root_of_isabs h with hroot | hroot
  · have hpath : normpath path = '/' :: ['/'].intercalate (follow [] path) := by
      rw [← hnormed, normpath, hroot]
      rfl
    rw [hpath, PosixPath.follow, components_slash, hparts]
    exact walk_of_plain [] hplain
  · have hpath : normpath path = '/' :: '/' :: ['/'].intercalate (follow [] path) := by
      rw [← hnormed, normpath, hroot]
      rfl
    rw [hpath, PosixPath.follow, components_slash, components_slash, hparts]
    exact walk_of_plain [] hplain

/-- What `abspath` makes of a path names the same file from everywhere. -/
theorem follow_abspath {cwd : Path} (h : isabs cwd = true) (dir : List Path) (path : Path) :
    follow dir (abspath cwd path) = follow (follow [] cwd) path := by
  by_cases hpath : isabs path = true
  · rw [abspath, if_pos hpath, follow_normpath hpath]
    simp [PosixPath.follow, hpath]
  · have hjoin : isabs (join cwd path) = true := by
      obtain ⟨rest, rfl⟩ := isabs_iff.mp h
      unfold join
      split_ifs with hnot
      · simp [hpath] at hnot
      · rfl
      · rfl
    rw [abspath, if_neg hpath, follow_normpath hjoin, follow_join]

end PosixPath

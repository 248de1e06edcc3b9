import TriadRuntime.Preparation
/-!
# Selecting a socket path (`process.rs`)

A daemon takes its socket path from a default, from variables that override it
one after the other, or from a directory that a variable names. The value of a
variable is any string of bytes; it is read as text, validated as a path and
kept, with the variable, as the source of the selection.

Trusted: `env::var_os` returns the bytes of a variable that is set, and nothing
else changes the environment.
-/

open Systems

namespace TriadRuntime

/-- The values of the variables that are set. -/
abbrev Environment := String → Option (List UInt8)

structure RuntimeSocketPath where
  path : AbsoluteRuntimePath
deriving DecidableEq, Repr

def RuntimeSocketPath.try_new (source : SocketPathSource) (path : Path) : Except RuntimePathError RuntimeSocketPath := do
  return ⟨← AbsoluteRuntimePath.try_new source path⟩

structure SocketPathSelection where
  socket_path : RuntimeSocketPath
  source : SocketPathSource
deriving DecidableEq, Repr

namespace SocketPathSelection

def as_path (s : SocketPathSelection) : Path := s.socket_path.path.path

def from_source (source : SocketPathSource) (path : Path) : Except RuntimePathError SocketPathSelection := do
  return ⟨← RuntimeSocketPath.try_new source path, source⟩

def from_default (field : String) (path : Path) : Except RuntimePathError SocketPathSelection :=
  from_source (.Default field) path

def from_environment_override (env : Environment) (variable_ : String) :
    Except RuntimePathError (Option SocketPathSelection) :=
  match env variable_ with
  | none => .ok none
  | some value =>
    let value := from_utf8_lossy value
    (from_source (.EnvironmentOverride variable_ value) (utf8 value)).map some

def from_runtime_directory (env : Environment) (variable_ field : String) (socket_path_inside_runtime_directory : Path) :
    Except RuntimePathError SocketPathSelection :=
  let value := ((env variable_).map from_utf8_lossy).getD ""
  let source := .RuntimeDirectory variable_ value field
  if value = "" then .error (.new source (utf8 value) .Empty)
  else from_source source (Path.join (utf8 value) socket_path_inside_runtime_directory)

def select_environment_override (env : Environment) (s : SocketPathSelection) (variable_ : String) :
    Except RuntimePathError SocketPathSelection := do
  return (← from_environment_override env variable_).getD s

/-- `s.select_environment_override(v1)?.select_environment_override(v2)?` and so on. -/
def select_environment_overrides (env : Environment) (s : SocketPathSelection) (names : List String) :
    Except RuntimePathError SocketPathSelection :=
  names.foldlM (select_environment_override env) s

/-! ## What is selected -/

theorem valid (s : SocketPathSelection) : s.as_path.isAbsolute = true ∧ .ParentDir ∉ s.as_path.components :=
  ⟨s.socket_path.path.absolute, s.socket_path.path.no_parentDir⟩

theorem from_source_cases (source : SocketPathSource) (path : Path) :
    (∃ s, from_source source path = .ok s ∧ s.as_path = path ∧ s.source = source) ∨
    ∃ kind, from_source source path = .error (.new source path kind) ∧ AbsoluteRuntimePath.Invalid path kind := by
  unfold from_source RuntimeSocketPath.try_new
  rcases AbsoluteRuntimePath.try_new_cases source path with ⟨p, hp, hpath⟩ | ⟨kind, herror, hkind⟩
  · rw [hp]
    exact .inl ⟨_, rfl, hpath, rfl⟩
  · rw [herror]
    exact .inr ⟨kind, rfl, hkind⟩

theorem from_source_ok {source : SocketPathSource} {path : Path} {s : SocketPathSelection}
    (h : from_source source path = .ok s) : s.as_path = path ∧ s.source = source := by
  rcases from_source_cases source path with ⟨t, ht, hpath, hsource⟩ | ⟨kind, herror, -⟩
  · rw [h] at ht
    cases ht
    exact ⟨hpath, hsource⟩
  · rw [h] at herror
    cases herror

theorem from_source_of_valid {path : Path} (source : SocketPathSource)
    (h : ¬ ∃ kind, AbsoluteRuntimePath.Invalid path kind) : ∃ s, from_source source path = .ok s := by
  rcases from_source_cases source path with ⟨s, hs, -⟩ | ⟨kind, -, hkind⟩
  · exact ⟨s, hs⟩
  · exact absurd ⟨kind, hkind⟩ h

theorem from_source_of_invalid {path : Path} {kind : RuntimePathErrorKind} (source : SocketPathSource)
    (h : AbsoluteRuntimePath.Invalid path kind) : from_source source path = .error (.new source path kind) := by
  rcases from_source_cases source path with ⟨s, -, rfl, -⟩ | ⟨kind', herror, hkind⟩
  · exact absurd rfl (h.not_valid s.socket_path.path)
  · rw [herror, h.unique hkind]

/-- Every selection is one that `from_source` makes. -/
theorem from_source_self (s : SocketPathSelection) : from_source s.source s.as_path = .ok s := by
  unfold from_source RuntimeSocketPath.try_new as_path
  rw [AbsoluteRuntimePath.try_new_ok_iff.2 rfl]
  rfl

/-- No listener refuses a selected path for what it is. -/
theorem prepare_accepts (faults : Faults) (fs : FileSystem) (s : SocketPathSelection) (error : RuntimePathError) :
    ((RuntimeSocketFile.mk s.as_path).prepare faults fs).1 ≠ .error (.RuntimePath error) := by
  have hvalid : AbsoluteRuntimePath.try_new (.Default "listener socket path") s.as_path = .ok s.socket_path.path :=
    AbsoluteRuntimePath.try_new_ok_iff.2 rfl
  unfold RuntimeSocketFile.prepare
  rw [hvalid]
  simp only
  split
  · rename_i e fs' hdirs
    obtain ⟨e, rfl⟩ := RuntimeSocketFile.create_parent_directory_error hdirs
    simp
  · unfold RuntimeSocketFile.remove_stale_socket
    split
    · simp only
      split
      · split <;> simp
      · simp
    · simp
    · simp

/-- Reading a path as text does not change whether a runtime may use it. -/
theorem invalid_lossy_iff {value : List UInt8} {kind : RuntimePathErrorKind} :
    AbsoluteRuntimePath.Invalid (utf8 (from_utf8_lossy value)) kind ↔ AbsoluteRuntimePath.Invalid value kind := by
  have hempty := (from_utf8_lossy_lossy value).eq_nil_iff
  have habs := Path.isAbsolute_lossy value
  have hparent := Path.parentDir_mem_lossy_iff value
  exact ⟨.of_alike hempty.symm habs hparent, .of_alike hempty habs.symm hparent.symm⟩

/-! ## Overrides one after the other -/

def HoldsInvalid (env : Environment) (variable_ : String) : Prop :=
  ∃ value kind, env variable_ = some value ∧ AbsoluteRuntimePath.Invalid value kind

theorem select_unset {env : Environment} {variable_ : String} (s : SocketPathSelection) (h : env variable_ = none) :
    select_environment_override env s variable_ = .ok s := by
  unfold select_environment_override from_environment_override
  rw [h]
  rfl

theorem select_set {env : Environment} {variable_ value : String} (s : SocketPathSelection)
    (h : env variable_ = some (utf8 value)) :
    (∃ t, select_environment_override env s variable_ = .ok t ∧ t.as_path = utf8 value ∧
      t.source = .EnvironmentOverride variable_ value ∧ ¬ HoldsInvalid env variable_) ∨
    ∃ kind, AbsoluteRuntimePath.Invalid (utf8 value) kind ∧
      select_environment_override env s variable_ = .error ⟨.EnvironmentOverride variable_ value, value, kind⟩ := by
  unfold select_environment_override from_environment_override
  rw [h]
  simp only [from_utf8_lossy_utf8]
  rcases from_source_cases (.EnvironmentOverride variable_ value) (utf8 value) with
    ⟨t, ht, hpath, hsource⟩ | ⟨kind, herror, hkind⟩
  · refine .inl ⟨t, by rw [ht]; rfl, hpath, hsource, ?_⟩
    rintro ⟨bytes, kind, hset, hkind⟩
    rw [h] at hset
    cases hset
    exact hkind.not_valid t.socket_path.path hpath
  · refine .inr ⟨kind, hkind, ?_⟩
    rw [herror, RuntimePathError.new, from_utf8_lossy_utf8]
    rfl

theorem overrides_ok {env : Environment} {s t : SocketPathSelection} {name : String}
    (h : select_environment_override env s name = .ok t) (names : List String) :
    select_environment_overrides env s (name :: names) = select_environment_overrides env t names := by
  unfold select_environment_overrides
  rw [List.foldlM_cons, h]
  rfl

theorem overrides_error {env : Environment} {s : SocketPathSelection} {name : String} {e : RuntimePathError}
    (h : select_environment_override env s name = .error e) (names : List String) :
    select_environment_overrides env s (name :: names) = .error e := by
  unfold select_environment_overrides
  rw [List.foldlM_cons, h]
  rfl

section Utf8

variable {env : Environment} (hutf8 : ∀ variable_ value, env variable_ = some value → IsUtf8 value)
include hutf8

theorem overrides_first_invalid (s : SocketPathSelection) {names : List String}
    (h : ∃ variable_ ∈ names, HoldsInvalid env variable_) :
    ∃ before variable_ after value kind, names = before ++ variable_ :: after ∧
      (∀ earlier ∈ before, ¬ HoldsInvalid env earlier) ∧ env variable_ = some (utf8 value) ∧
      AbsoluteRuntimePath.Invalid (utf8 value) kind ∧
      select_environment_overrides env s names = .error ⟨.EnvironmentOverride variable_ value, value, kind⟩ := by
  induction names generalizing s with
  | nil =>
    obtain ⟨variable_, hmem, -⟩ := h
    cases hmem
  | cons name names ih =>
    -- Where the first name does no harm, the chain goes on with what it selects.
    have hnext : ∀ t, select_environment_override env s name = .ok t → ¬ HoldsInvalid env name →
        ∃ before variable_ after value kind, name :: names = before ++ variable_ :: after ∧
          (∀ earlier ∈ before, ¬ HoldsInvalid env earlier) ∧ env variable_ = some (utf8 value) ∧
          AbsoluteRuntimePath.Invalid (utf8 value) kind ∧
          select_environment_overrides env s (name :: names) =
            .error ⟨.EnvironmentOverride variable_ value, value, kind⟩ := by
      intro t ht hname
      have hrest : ∃ variable_ ∈ names, HoldsInvalid env variable_ := by simpa [hname] using h
      obtain ⟨before, variable_, after, value, kind, rfl, hbefore, hset, hkind, hresult⟩ := ih t hrest
      exact ⟨name :: before, variable_, after, value, kind, rfl, List.forall_mem_cons.2 ⟨hname, hbefore⟩, hset, hkind,
        (overrides_ok ht _).trans hresult⟩
    cases hset : env name with
    | none =>
      refine hnext s (select_unset s hset) ?_
      rintro ⟨value, kind, hset', -⟩
      rw [hset] at hset'
      cases hset'
    | some bytes =>
      obtain ⟨value, rfl⟩ := hutf8 name bytes hset
      rcases select_set s hset with ⟨t, ht, -, -, hname⟩ | ⟨kind, hkind, herror⟩
      · exact hnext t ht hname
      · exact ⟨[], name, names, value, kind, rfl, by simp, hset, hkind, overrides_error herror names⟩

theorem overrides_last_set (s : SocketPathSelection) {names : List String}
    (h : ∀ variable_ ∈ names, ¬ HoldsInvalid env variable_) :
    (∃ before variable_ after value t, names = before ++ variable_ :: after ∧ (∀ later ∈ after, env later = none) ∧
      env variable_ = some (utf8 value) ∧ select_environment_overrides env s names = .ok t ∧
      t.as_path = utf8 value ∧ t.source = .EnvironmentOverride variable_ value) ∨
    ((∀ variable_ ∈ names, env variable_ = none) ∧ select_environment_overrides env s names = .ok s) := by
  induction names generalizing s with
  | nil => exact .inr ⟨by simp, rfl⟩
  | cons name names ih =>
    obtain ⟨hname, hnames⟩ := List.forall_mem_cons.1 h
    cases hset : env name with
    | none =>
      rw [overrides_ok (select_unset s hset)]
      rcases ih s hnames with ⟨before, variable_, after, value, t, rfl, hafter, hset', hresult⟩ | ⟨hunset, hresult⟩
      · exact .inl ⟨name :: before, variable_, after, value, t, rfl, hafter, hset', hresult⟩
      · exact .inr ⟨List.forall_mem_cons.2 ⟨hset, hunset⟩, hresult⟩
    | some bytes =>
      obtain ⟨value, rfl⟩ := hutf8 name bytes hset
      rcases select_set s hset with ⟨t, ht, hpath, hsource, -⟩ | ⟨kind, hkind, -⟩
      · rw [overrides_ok ht]
        rcases ih t hnames with ⟨before, variable_, after, value, u, rfl, hafter, hset', hresult⟩ | ⟨hunset, hresult⟩
        · exact .inl ⟨name :: before, variable_, after, value, u, rfl, hafter, hset', hresult⟩
        · exact .inl ⟨[], name, names, value, t, rfl, hunset, hset, hresult, hpath, hsource⟩
      · exact absurd ⟨utf8 value, kind, hset, hkind⟩ hname

end Utf8

/-- The first variable of the chain that holds an invalid value ends it with
that value and what is wrong with it. If there is none, the last variable that
is set has been selected, or the default. What is selected is always absolute
and never climbs. -/
theorem overrides_in_order (env : Environment) (hutf8 : ∀ variable_ value, env variable_ = some value → IsUtf8 value)
    (default : SocketPathSelection) (names : List String) :
    ((∃ variable_ ∈ names, HoldsInvalid env variable_) →
      ∃ before variable_ after value kind, names = before ++ variable_ :: after ∧
        (∀ earlier ∈ before, ¬ HoldsInvalid env earlier) ∧ env variable_ = some (utf8 value) ∧
        AbsoluteRuntimePath.Invalid (utf8 value) kind ∧
        select_environment_overrides env default names =
          .error ⟨.EnvironmentOverride variable_ value, value, kind⟩) ∧
    ((∀ variable_ ∈ names, ¬ HoldsInvalid env variable_) →
      (∃ before variable_ after value s, names = before ++ variable_ :: after ∧ (∀ later ∈ after, env later = none) ∧
        env variable_ = some (utf8 value) ∧ select_environment_overrides env default names = .ok s ∧
        s.as_path = utf8 value ∧ s.source = .EnvironmentOverride variable_ value) ∨
      ((∀ variable_ ∈ names, env variable_ = none) ∧ select_environment_overrides env default names = .ok default)) ∧
    ∀ s, select_environment_overrides env default names = .ok s →
      s.as_path.isAbsolute = true ∧ .ParentDir ∉ s.as_path.components :=
  ⟨overrides_first_invalid hutf8 default, overrides_last_set hutf8 default, fun s _ => s.valid⟩

/-- One variable is set, and holds a path. -/
def withVariable (variable_ value : String) : Environment := fun name =>
  if name = variable_ then some (utf8 value) else none

theorem withVariable_utf8 (variable_ value : String) (name : String) (bytes : List UInt8)
    (h : withVariable variable_ value name = some bytes) : IsUtf8 bytes := by
  unfold withVariable at h
  split at h
  · exact ⟨value, Option.some.inj h⟩
  · cases h

/-- The path `/d`, a default. -/
def slashD : SocketPathSelection := ⟨⟨⟨[47, 100], rfl, rfl⟩⟩, .Default "socket"⟩

/-- `A` holds a path and `B` a relative one. -/
def relativeB : Environment := fun name =>
  if name = "A" then some (utf8 "/a") else if name = "B" then some (utf8 "b") else none

theorem relativeB_utf8 (name : String) (bytes : List UInt8) (h : relativeB name = some bytes) : IsUtf8 bytes := by
  unfold relativeB at h
  split at h
  · exact ⟨"/a", Option.some.inj h⟩
  · split at h
    · exact ⟨"b", Option.some.inj h⟩
    · cases h

theorem relativeB_valid {name : String} (hname : name ≠ "B") : ¬ HoldsInvalid relativeB name := by
  rintro ⟨value, kind, hset, hinvalid⟩
  simp only [relativeB, if_neg hname] at hset
  split at hset
  · cases hset
    exact AbsoluteRuntimePath.invalid_iff.not.2 (by decide) ⟨kind, hinvalid⟩
  · cases hset

/-- `B` ends the chain that reaches it; one that does not ends with `A`. -/
theorem overrides_in_order_relativeB :
    from_default "socket" (utf8 "/d") = .ok slashD ∧
    (∃ before after value kind, ["A", "B", "C"] = before ++ "B" :: after ∧
      (∀ earlier ∈ before, ¬ HoldsInvalid relativeB earlier) ∧ relativeB "B" = some (utf8 value) ∧
      select_environment_overrides relativeB slashD ["A", "B", "C"] =
        .error ⟨.EnvironmentOverride "B" value, value, kind⟩) ∧
    ∃ s value, select_environment_overrides relativeB slashD ["A", "C"] = .ok s ∧ relativeB "A" = some (utf8 value) ∧
      s.as_path = utf8 value ∧ s.source = .EnvironmentOverride "A" value ∧ s.as_path.isAbsolute = true := by
  have hB : HoldsInvalid relativeB "B" := ⟨utf8 "b", .Relative, rfl, .relative (by decide) rfl⟩
  obtain ⟨hfirst, -, -⟩ := overrides_in_order relativeB relativeB_utf8 slashD ["A", "B", "C"]
  obtain ⟨-, hlast, hvalid⟩ := overrides_in_order relativeB relativeB_utf8 slashD ["A", "C"]
  refine ⟨rfl, ?_, ?_⟩
  · obtain ⟨before, name, after, value, kind, hsplit, hbefore, hset, hkind, hresult⟩ := hfirst ⟨"B", by simp, hB⟩
    obtain rfl : name = "B" := by
      by_contra hname
      exact relativeB_valid hname ⟨utf8 value, kind, hset, hkind⟩
    exact ⟨before, after, value, kind, hsplit, hbefore, hset, hresult⟩
  · have hgood : ∀ name ∈ ["A", "C"], ¬ HoldsInvalid relativeB name := by
      intro name hmem
      refine relativeB_valid fun hname => ?_
      subst hname
      simp at hmem
    rcases hlast hgood with ⟨before, name, after, value, s, hsplit, -, hset, hs, hpath, hsource⟩ | ⟨hnone, -⟩
    · obtain rfl : name = "A" := by
        have hmem : name ∈ ["A", "C"] := hsplit ▸ List.mem_append_right _ (List.mem_cons_self ..)
        simp only [List.mem_cons, List.not_mem_nil, or_false] at hmem
        rcases hmem with rfl | rfl
        · rfl
        · cases hset
      exact ⟨s, value, hs, hset, hpath, hsource, (hvalid s hs).1⟩
    · cases hnone "A" (by simp)

/-! ## Inside a directory -/

theorem from_runtime_directory_ok_iff {env : Environment} {variable_ field : String} {inner : Path}
    {s : SocketPathSelection} :
    from_runtime_directory env variable_ field inner = .ok s ↔
      ∃ value, env variable_ = some value ∧ value ≠ [] ∧
        from_source (.RuntimeDirectory variable_ (from_utf8_lossy value) field)
          (Path.join (utf8 (from_utf8_lossy value)) inner) = .ok s := by
  unfold from_runtime_directory
  cases henv : env variable_ with
  | none => simp
  | some value => by_cases hne : value = [] <;> simp [from_utf8_lossy_eq_empty_iff, hne]

/-- An absolute path inside is what is selected. -/
theorem absolute_inner_selected {env : Environment} {variable_ : String} (field : String) {inner value : Path}
    (hset : env variable_ = some value) (hne : value ≠ []) (habs : inner.isAbsolute = true)
    (hno : .ParentDir ∉ inner.components) :
    ∃ s, from_runtime_directory env variable_ field inner = .ok s ∧ s.as_path = inner := by
  have hvalid : ¬ ∃ kind, AbsoluteRuntimePath.Invalid inner kind := by
    rw [AbsoluteRuntimePath.invalid_iff]
    rintro (rfl | hrel | hmem)
    · cases habs
    · rw [habs] at hrel
      cases hrel
    · exact hno hmem
  obtain ⟨s, hs⟩ := from_source_of_valid (.RuntimeDirectory variable_ (from_utf8_lossy value) field) hvalid
  refine ⟨s, from_runtime_directory_ok_iff.2 ⟨value, hset, hne, ?_⟩, (from_source_ok hs).1⟩
  rw [Path.join_absolute habs]
  exact hs

/-- What is selected in a directory that a variable names in text lies in that
directory, unless an absolute path inside replaces it. -/
theorem runtime_directory_contains_iff (env : Environment) (variable_ field : String)
    (hutf8 : ∀ value, env variable_ = some value → IsUtf8 value) (inner : Path) :
    (∀ s, from_runtime_directory env variable_ field inner = .ok s →
      ∃ value, env variable_ = some (utf8 value) ∧ Path.components (utf8 value) <+: s.as_path.components ∧
        .ParentDir ∉ s.as_path.components ∧ s.source = .RuntimeDirectory variable_ value field) ↔
    (inner.isAbsolute = false ∨ .ParentDir ∈ inner.components ∨
      ∀ value, env variable_ = some value → value = [] ∨ Path.components value <+: inner.components) := by
  constructor
  · intro hinside
    cases habs : inner.isAbsolute with
    | false => exact .inl rfl
    | true =>
      by_cases hparent : .ParentDir ∈ inner.components
      · exact .inr (.inl hparent)
      · refine .inr (.inr fun value hset => or_iff_not_imp_left.2 fun hne => ?_)
        obtain ⟨s, hs, hpath⟩ := absolute_inner_selected field hset hne habs hparent
        obtain ⟨text, hset', hprefix, -⟩ := hinside s hs
        rw [hset] at hset'
        cases hset'
        rw [hpath] at hprefix
        exact hprefix
  · intro hwhen s hs
    obtain ⟨value, hset, hne, hsource⟩ := from_runtime_directory_ok_iff.1 hs
    obtain ⟨text, rfl⟩ := hutf8 value hset
    rw [from_utf8_lossy_utf8] at hsource
    obtain ⟨hpath, hsource⟩ := from_source_ok hsource
    have hno := s.valid.2
    refine ⟨text, hset, ?_, hno, hsource⟩
    cases habs : inner.isAbsolute with
    | false =>
      rw [hpath, Path.components_join hne habs]
      exact List.prefix_append _ _
    | true =>
      rw [Path.join_absolute habs] at hpath
      rw [hpath] at hno ⊢
      rcases hwhen with hrel | hparent | hvalue
      · rw [habs] at hrel
        cases hrel
      · exact absurd hparent hno
      · exact (hvalue _ hset).resolve_left hne

/-- The path `/r/s`, in a directory that a variable names. -/
def slashRS : SocketPathSelection := ⟨⟨⟨[47, 114, 47, 115], rfl, rfl⟩⟩, .RuntimeDirectory "D" "/r" "socket"⟩

theorem runtime_directory_contains_iff_relative :
    from_runtime_directory (withVariable "D" "/r") "D" "socket" (utf8 "s") = .ok slashRS ∧
      ∃ value, withVariable "D" "/r" "D" = some (utf8 value) ∧
        Path.components (utf8 value) <+: slashRS.as_path.components ∧
        .ParentDir ∉ slashRS.as_path.components ∧ slashRS.source = .RuntimeDirectory "D" value "socket" :=
  ⟨rfl, (runtime_directory_contains_iff (withVariable "D" "/r") "D" "socket" (withVariable_utf8 "D" "/r" "D")
    (utf8 "s")).2 (.inl rfl) slashRS rfl⟩

/-- The path `/e`, in no directory. -/
def slashE : SocketPathSelection := ⟨⟨⟨[47, 101], rfl, rfl⟩⟩, .RuntimeDirectory "D" "/r" "socket"⟩

theorem absolute_inner_path_escapes :
    from_runtime_directory (withVariable "D" "/r") "D" "socket" (utf8 "/e") = .ok slashE ∧
      ¬ Path.components (utf8 "/r") <+: slashE.as_path.components :=
  ⟨rfl, by decide⟩

/-! ## The bytes of a value -/

theorem from_environment_override_ok_iff {env : Environment} {variable_ : String} {s : SocketPathSelection} :
    from_environment_override env variable_ = .ok (some s) ↔
      ∃ value, env variable_ = some value ∧
        from_source (.EnvironmentOverride variable_ (from_utf8_lossy value)) (utf8 (from_utf8_lossy value)) = .ok s := by
  unfold from_environment_override
  cases henv : env variable_ with
  | none => simp
  | some value =>
    simp only [Option.some.injEq, exists_eq_left']
    cases from_source (.EnvironmentOverride variable_ (from_utf8_lossy value)) (utf8 (from_utf8_lossy value)) with
    | error e => simp [Except.map]
    | ok t => simp [Except.map]

theorem invalid_join_iff {p inner : Path} (hp : p ≠ []) (h : inner.isAbsolute = false) :
    (∃ kind, AbsoluteRuntimePath.Invalid (p.join inner) kind) ↔
      (∃ kind, AbsoluteRuntimePath.Invalid p kind) ∨ .ParentDir ∈ inner.components := by
  have hne : p.join inner ≠ [] := by
    rw [Path.join_relative h]
    exact List.append_ne_nil_of_left_ne_nil hp _
  rw [AbsoluteRuntimePath.invalid_iff, AbsoluteRuntimePath.invalid_iff, Path.isAbsolute_join hp h,
    Path.parentDir_mem_join_iff hp h]
  simp only [hp, hne, false_or, or_assoc]

/-- What a selection keeps of the value it was made from, and that it is not
made where it cannot. -/
structure KeepsValue (env : Environment) (variable_ field : String) (inner : Path) : Prop where
  override : ∀ s, from_environment_override env variable_ = .ok (some s) → env variable_ = some s.as_path
  directory : inner.isAbsolute = false → ∀ s, from_runtime_directory env variable_ field inner = .ok s →
    ∃ value, env variable_ = some value ∧ s.as_path = Path.join value inner
  refused : ∀ value, env variable_ = some value → ¬ IsUtf8 value →
    (∃ e, from_environment_override env variable_ = .error e) ∧
    (inner.isAbsolute = false → ∃ e, from_runtime_directory env variable_ field inner = .error e)

/-- Different values select different paths. -/
structure TellsApart (env env' : Environment) (variable_ field : String) (inner : Path) : Prop where
  override : ∀ s s', from_environment_override env variable_ = .ok (some s) →
    from_environment_override env' variable_ = .ok (some s') → s.as_path = s'.as_path → env variable_ = env' variable_
  directory : inner.isAbsolute = false → ∀ s s', from_runtime_directory env variable_ field inner = .ok s →
    from_runtime_directory env' variable_ field inner = .ok s' → s.as_path = s'.as_path → env variable_ = env' variable_

/-- The value is text, or no path a runtime may use. -/
def Representable (env : Environment) (variable_ : String) : Prop :=
  ∀ value, env variable_ = some value → IsUtf8 value ∨ ∃ kind, AbsoluteRuntimePath.Invalid value kind

/-- One value is the other with a slash behind it, the one that `join` would add. -/
def SlashApart (value value' : Path) : Prop :=
  (¬ ∃ kind, AbsoluteRuntimePath.Invalid value kind) ∧ value.getLast? ≠ some Path.slash ∧ value' = value ++ [Path.slash]

theorem override_kept {env : Environment} {variable_ : String} (h : Representable env variable_)
    {s : SocketPathSelection} (hs : from_environment_override env variable_ = .ok (some s)) :
    env variable_ = some s.as_path := by
  obtain ⟨value, hset, hsource⟩ := from_environment_override_ok_iff.1 hs
  have hpath := (from_source_ok hsource).1
  rcases h value hset with hutf8 | ⟨kind, hkind⟩
  · rw [utf8_from_utf8_lossy_iff.2 hutf8] at hpath
    rw [hset, hpath]
  · exact absurd hpath ((invalid_lossy_iff.2 hkind).not_valid s.socket_path.path)

theorem directory_kept {env : Environment} {variable_ field : String} {inner : Path} (h : Representable env variable_)
    (hrel : inner.isAbsolute = false) {s : SocketPathSelection}
    (hs : from_runtime_directory env variable_ field inner = .ok s) :
    ∃ value, env variable_ = some value ∧ value ≠ [] ∧ s.as_path = Path.join value inner ∧
      (¬ ∃ kind, AbsoluteRuntimePath.Invalid value kind) ∧ .ParentDir ∉ inner.components := by
  obtain ⟨value, hset, hne, hsource⟩ := from_runtime_directory_ok_iff.1 hs
  have hpath := (from_source_ok hsource).1
  have hne' : utf8 (from_utf8_lossy value) ≠ [] := mt (from_utf8_lossy_lossy value).eq_nil_iff.2 hne
  have hjoin : ¬ ∃ kind, AbsoluteRuntimePath.Invalid (Path.join (utf8 (from_utf8_lossy value)) inner) kind := by
    rintro ⟨kind, hkind⟩
    exact hkind.not_valid s.socket_path.path hpath
  rw [invalid_join_iff hne' hrel, not_or] at hjoin
  simp only [invalid_lossy_iff] at hjoin
  have hutf8 := (h value hset).resolve_right hjoin.1
  rw [utf8_from_utf8_lossy_iff.2 hutf8] at hpath
  exact ⟨value, hset, hne, hpath, hjoin⟩

theorem keepsValue_iff {env : Environment} {variable_ field : String} {inner : Path} :
    KeepsValue env variable_ field inner ↔ Representable env variable_ := by
  constructor
  · intro h value hset
    by_contra hno
    rw [not_or] at hno
    have hvalid : ¬ ∃ kind, AbsoluteRuntimePath.Invalid (utf8 (from_utf8_lossy value)) kind := by
      simpa only [invalid_lossy_iff] using hno.2
    obtain ⟨s, hs⟩ := from_source_of_valid (.EnvironmentOverride variable_ (from_utf8_lossy value)) hvalid
    have hkept := h.override s (from_environment_override_ok_iff.2 ⟨value, hset, hs⟩)
    rw [hset, (from_source_ok hs).1] at hkept
    exact hno.1 (utf8_from_utf8_lossy_iff.1 (Option.some.inj hkept).symm)
  · intro h
    refine ⟨fun s hs => override_kept h hs, fun hrel s hs => ?_, fun value hset hutf8 => ?_⟩
    · obtain ⟨value, hset, -, hpath, -⟩ := directory_kept h hrel hs
      exact ⟨value, hset, hpath⟩
    · obtain ⟨kind, hkind⟩ := (h value hset).resolve_left hutf8
      constructor
      · have herror := from_source_of_invalid (.EnvironmentOverride variable_ (from_utf8_lossy value))
          (invalid_lossy_iff.2 hkind)
        unfold from_environment_override
        rw [hset]
        simp only
        rw [herror]
        exact ⟨_, rfl⟩
      · intro hrel
        cases hresult : from_runtime_directory env variable_ field inner with
        | error e => exact ⟨e, rfl⟩
        | ok s =>
          obtain ⟨value', hset', -, -, hvalid, -⟩ := directory_kept h hrel hresult
          rw [hset] at hset'
          cases hset'
          exact absurd ⟨kind, hkind⟩ hvalid

theorem directory_selected {env : Environment} {variable_ : String} (field : String) {inner value : Path}
    (h : Representable env variable_) (hset : env variable_ = some value)
    (hvalid : ¬ ∃ kind, AbsoluteRuntimePath.Invalid value kind) (hrel : inner.isAbsolute = false)
    (hno : .ParentDir ∉ inner.components) :
    ∃ s, from_runtime_directory env variable_ field inner = .ok s ∧ s.as_path = Path.join value inner := by
  have hne : value ≠ [] := by
    rintro rfl
    exact hvalid ⟨_, .empty⟩
  have hutf8 := utf8_from_utf8_lossy_iff.2 ((h value hset).resolve_right hvalid)
  have hjoin : ¬ ∃ kind, AbsoluteRuntimePath.Invalid (Path.join value inner) kind := by
    rw [invalid_join_iff hne hrel]
    exact not_or.2 ⟨hvalid, hno⟩
  obtain ⟨s, hs⟩ := from_source_of_valid (.RuntimeDirectory variable_ (from_utf8_lossy value) field) hjoin
  exact ⟨s, from_runtime_directory_ok_iff.2 ⟨value, hset, hne, by rw [hutf8]; exact hs⟩, (from_source_ok hs).1⟩

theorem SlashApart.join {value value' inner : Path} (h : SlashApart value value') (hrel : inner.isAbsolute = false) :
    (¬ ∃ kind, AbsoluteRuntimePath.Invalid value' kind) ∧ Path.join value inner = Path.join value' inner := by
  obtain ⟨hvalid, hlast, rfl⟩ := h
  have hne : value ≠ [] := by
    rintro rfl
    exact hvalid ⟨_, .empty⟩
  -- The slash is what joining nothing adds.
  have hslash : value ++ [Path.slash] = Path.join value [] := by
    rw [Path.join_relative rfl, if_neg (by simp [hne, hlast]), List.append_nil]
  constructor
  · rw [hslash, invalid_join_iff hne rfl]
    exact not_or.2 ⟨hvalid, by decide⟩
  · exact (Path.join_inj_iff hne (by simp) hrel).2 (.inr (.inl ⟨hlast, rfl⟩))

theorem tellsApart_iff {env env' : Environment} {variable_ field : String} {inner : Path}
    (h : Representable env variable_) (h' : Representable env' variable_) :
    TellsApart env env' variable_ field inner ↔
      inner.isAbsolute = true ∨ .ParentDir ∈ inner.components ∨
        ∀ value value', env variable_ = some value → env' variable_ = some value' →
          ¬ SlashApart value value' ∧ ¬ SlashApart value' value := by
  constructor
  · intro htell
    cases hrel : inner.isAbsolute with
    | true => exact .inl rfl
    | false =>
      by_cases hparent : .ParentDir ∈ inner.components
      · exact .inr (.inl hparent)
      · refine .inr (.inr fun value value' hset hset' => ?_)
        -- Values that lead to one path are one value, and none is itself with a slash behind.
        have hone : (¬ ∃ kind, AbsoluteRuntimePath.Invalid value kind) →
            (¬ ∃ kind, AbsoluteRuntimePath.Invalid value' kind) → Path.join value inner = Path.join value' inner →
            value = value' := by
          intro hvalid hvalid' hjoin
          obtain ⟨s, hs, hpath⟩ := directory_selected field h hset hvalid hrel hparent
          obtain ⟨s', hs', hpath'⟩ := directory_selected field h' hset' hvalid' hrel hparent
          have := htell.directory hrel s s' hs hs' (by rw [hpath, hpath', hjoin])
          rw [hset, hset'] at this
          exact Option.some.inj this
        constructor
        · intro hslash
          obtain ⟨hvalid', hjoin⟩ := hslash.join hrel
          have := hone hslash.1 hvalid' hjoin
          simpa [this] using hslash.2.2
        · intro hslash
          obtain ⟨hvalid, hjoin⟩ := hslash.join hrel
          have := hone hvalid hslash.1 hjoin.symm
          simpa [this] using hslash.2.2
  · intro hwhen
    refine ⟨fun s s' hs hs' hpath => ?_, fun hrel s s' hs hs' hpath => ?_⟩
    · rw [override_kept h hs, override_kept h' hs', hpath]
    · obtain ⟨value, hset, hne, hvalue, hvalid, hno⟩ := directory_kept h hrel hs
      obtain ⟨value', hset', hne', hvalue', hvalid', -⟩ := directory_kept h' hrel hs'
      have hjoin : Path.join value inner = Path.join value' inner := hvalue.symm.trans (hpath.trans hvalue')
      rcases hwhen with habs | hparent | hapart
      · rw [hrel] at habs
        cases habs
      · exact absurd hparent hno
      · obtain ⟨hslash, hslash'⟩ := hapart value value' hset hset'
        rcases (Path.join_inj_iff hne hne' hrel).1 hjoin with rfl | hbehind | hbehind
        · rw [hset, hset']
        · exact absurd ⟨hvalid, hbehind⟩ hslash
        · exact absurd ⟨hvalid', hbehind⟩ hslash'

/-- The bytes of a value are kept, and tell it from another value, just when
each of the two is text or refused; a slash at the end of a directory does not
show in the paths inside. -/
theorem values_kept_iff (env env' : Environment) (variable_ field : String) (inner : Path) :
    (KeepsValue env variable_ field inner ∧ KeepsValue env' variable_ field inner ∧
      TellsApart env env' variable_ field inner) ↔
    Representable env variable_ ∧ Representable env' variable_ ∧
      (inner.isAbsolute = true ∨ .ParentDir ∈ inner.components ∨
        ∀ value value', env variable_ = some value → env' variable_ = some value' →
          ¬ SlashApart value value' ∧ ¬ SlashApart value' value) := by
  rw [keepsValue_iff, keepsValue_iff]
  constructor
  · rintro ⟨h, h', htell⟩
    exact ⟨h, h', (tellsApart_iff h h').1 htell⟩
  · rintro ⟨h, h', hwhen⟩
    exact ⟨h, h', (tellsApart_iff h h').2 hwhen⟩

/-- The path that the bytes `2F FF` select, and `2F FE` too. -/
def slashReplacement : SocketPathSelection :=
  ⟨⟨⟨[47, 0xEF, 0xBF, 0xBD], rfl, rfl⟩⟩, .EnvironmentOverride "V" "/\uFFFD"⟩

theorem different_bytes_select_one_path :
    from_environment_override (fun _ => some [47, 0xFF]) "V" = .ok (some slashReplacement) ∧
      from_environment_override (fun _ => some [47, 0xFE]) "V" = .ok (some slashReplacement) ∧
      slashReplacement.as_path ≠ [47, 0xFF] ∧ slashReplacement.as_path ≠ [47, 0xFE] :=
  ⟨rfl, rfl, by decide, by decide⟩

end SocketPathSelection

end TriadRuntime

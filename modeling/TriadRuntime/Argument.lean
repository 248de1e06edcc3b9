import TriadRuntime.Systems.FileSystem
/-!
# The argument of a component (`argument.rs`)

A component takes one argument: text to read, or a path that exists. A daemon
takes only the path of a signal file, which is any but a `.datom` path; what a
`.datom` path is, `Path::extension` decides.

Trusted: `std::path` as in `Systems.Paths` and `Path::exists` as in
`Systems.FileSystem`; the file system does not change during the call.
-/

open Systems

namespace TriadRuntime

structure InlineDatom where
  text : String
deriving DecidableEq, Repr

structure InlineText where
  text : String
deriving DecidableEq, Repr

structure DatomFile where
  path : Path
deriving DecidableEq, Repr

structure SignalFile where
  path : Path
deriving DecidableEq, Repr

structure ArgumentFilePath where
  path : Path
deriving DecidableEq, Repr

inductive ComponentArgument where
  | InlineDatom (argument : InlineDatom)
  | DatomFile (argument : DatomFile)
  | SignalFile (argument : SignalFile)
deriving DecidableEq, Repr

inductive RawArgument where
  | InlineText (text : InlineText)
  | FilePath (path : ArgumentFilePath)
deriving DecidableEq, Repr

inductive ArgumentError where
  | ArgumentCount (count : Nat)
  | ExpectedSignalFile
deriving DecidableEq, Repr

def RawArgument.from_single (fs : FileSystem) (argument : String) : RawArgument :=
  if fs.exists_ (utf8 argument) then .FilePath ⟨utf8 argument⟩ else .InlineText ⟨argument⟩

/-- `to_str` fails only for what is not this text. -/
def ArgumentFilePath.is_datom_file (p : ArgumentFilePath) : Bool := Path.extension p.path = some (utf8 "datom")

structure ComponentCommand where
  arguments : List String
deriving DecidableEq, Repr

namespace ComponentCommand

def PRETTY_FLAG : String := "--pretty"

def pretty_requested (c : ComponentCommand) : Bool := c.arguments.any (· = PRETTY_FLAG)

def operands (c : ComponentCommand) : List String := c.arguments.filter (· ≠ PRETTY_FLAG)

def argument_count (c : ComponentCommand) : Nat := c.operands.length

def raw_argument (fs : FileSystem) (c : ComponentCommand) : Except ArgumentError RawArgument :=
  match c.operands with
  | [argument] => .ok (.from_single fs argument)
  | operands => .error (.ArgumentCount operands.length)

def datom_argument (fs : FileSystem) (c : ComponentCommand) : Except ArgumentError ComponentArgument := do
  match ← c.raw_argument fs with
  | .InlineText text => .ok (.InlineDatom ⟨text.text⟩)
  | .FilePath path => .ok (.DatomFile ⟨path.path⟩)

def signal_file_argument (fs : FileSystem) (c : ComponentCommand) : Except ArgumentError ComponentArgument := do
  match ← c.raw_argument fs with
  | .InlineText _ => .error .ExpectedSignalFile
  | .FilePath path =>
    if path.is_datom_file then .error .ExpectedSignalFile else .ok (.SignalFile ⟨path.path⟩)

/-! ## The flag -/

/-- The flag counts nowhere. -/
theorem operands_pretty (before after : List String) :
    operands ⟨before ++ PRETTY_FLAG :: after⟩ = operands ⟨before ++ after⟩ := by
  unfold operands
  rw [List.filter_append, List.filter_append, List.filter_cons_of_neg (by simp)]

theorem pretty_anywhere (fs : FileSystem) (before after : List String) :
    signal_file_argument fs ⟨before ++ PRETTY_FLAG :: after⟩ = signal_file_argument fs ⟨before ++ after⟩ ∧
      datom_argument fs ⟨before ++ PRETTY_FLAG :: after⟩ = datom_argument fs ⟨before ++ after⟩ := by
  unfold signal_file_argument datom_argument raw_argument
  rw [operands_pretty]
  exact ⟨rfl, rfl⟩

theorem pretty_requested_iff (c : ComponentCommand) :
    c.pretty_requested = true ↔ c.argument_count < c.arguments.length := by
  unfold pretty_requested argument_count operands
  rw [List.length_filter_lt_length_iff_exists]
  simp

/-! ## Signal files -/

/-- The last component of the path ends in `.datom`. -/
def EndsInDatom (p : Path) : Prop := ∃ c, p.components.getLast? = some c ∧ utf8 ".datom" <:+ Path.Component.bytes c

theorem endsInDatom_iff {p : Path} : EndsInDatom p ↔ ∃ stem, p.file_name = some (stem ++ utf8 ".datom") := by
  unfold EndsInDatom Path.file_name
  constructor
  · rintro ⟨c, hlast, stem, hbytes⟩
    have hdatom : (utf8 ".datom").length = 6 := rfl
    have hlength := congrArg List.length hbytes
    rw [List.length_append, hdatom] at hlength
    rw [hlast]
    cases c with
    | RootDir => simp [Path.Component.bytes] at hlength
    | CurDir => simp [Path.Component.bytes] at hlength
    | ParentDir => simp [Path.Component.bytes] at hlength
    | Normal name => exact ⟨stem, congrArg some hbytes.symm⟩
  · rintro ⟨stem, hname⟩
    split at hname
    · rename_i name hlast
      cases hname
      exact ⟨_, hlast, stem, rfl⟩
    · cases hname

/-- A name that is `.datom` and nothing else has no extension. -/
theorem is_datom_file_iff {p : Path} :
    ArgumentFilePath.is_datom_file ⟨p⟩ = true ↔ EndsInDatom p ∧ p.file_name ≠ some (utf8 ".datom") := by
  have hdatom : utf8 ".datom" = Path.dot :: utf8 "datom" := rfl
  unfold ArgumentFilePath.is_datom_file
  rw [decide_eq_true_eq, Path.extension_eq_some_iff, endsInDatom_iff, hdatom]
  constructor
  · rintro ⟨stem, hstem, hname, -⟩
    refine ⟨⟨stem, hname⟩, fun hbare => hstem ?_⟩
    rw [hname, Option.some.injEq] at hbare
    exact List.append_left_eq_self.1 hbare
  · rintro ⟨⟨stem, hname⟩, hbare⟩
    refine ⟨stem, ?_, hname, by decide⟩
    rintro rfl
    exact hbare hname

theorem raw_argument_single {fs : FileSystem} {c : ComponentCommand} {argument : String} (h : c.operands = [argument]) :
    c.raw_argument fs = .ok (.from_single fs argument) := by
  unfold raw_argument
  rw [h]

theorem raw_argument_count (fs : FileSystem) {c : ComponentCommand} (h : c.operands.length ≠ 1) :
    c.raw_argument fs = .error (.ArgumentCount c.operands.length) := by
  unfold raw_argument
  split
  · rename_i hsingle
    rw [hsingle] at h
    exact absurd rfl h
  · rfl

theorem signal_file_argument_single (fs : FileSystem) {c : ComponentCommand} {argument : String}
    (h : c.operands = [argument]) :
    c.signal_file_argument fs =
      if fs.exists_ (utf8 argument) = true ∧ ArgumentFilePath.is_datom_file ⟨utf8 argument⟩ = false then
        .ok (.SignalFile ⟨utf8 argument⟩)
      else .error .ExpectedSignalFile := by
  unfold signal_file_argument
  rw [raw_argument_single h, RawArgument.from_single]
  by_cases hexists : fs.exists_ (utf8 argument) = true
  · rw [if_pos hexists]
    cases hdatom : ArgumentFilePath.is_datom_file ⟨utf8 argument⟩ <;> simp [bind, Except.bind, hexists, hdatom]
  · rw [if_neg hexists, if_neg fun h => hexists h.1]
    rfl

theorem datom_argument_single {fs : FileSystem} {c : ComponentCommand} {argument : String} (h : c.operands = [argument]) :
    c.datom_argument fs =
      if fs.exists_ (utf8 argument) = true then .ok (.DatomFile ⟨utf8 argument⟩) else .ok (.InlineDatom ⟨argument⟩) := by
  unfold datom_argument
  rw [raw_argument_single h, RawArgument.from_single]
  by_cases hexists : fs.exists_ (utf8 argument) = true
  · rw [if_pos hexists, if_pos hexists]
    rfl
  · rw [if_neg hexists, if_neg hexists]
    rfl

theorem signal_file_argument_count (fs : FileSystem) {c : ComponentCommand} (h : c.operands.length ≠ 1) :
    c.signal_file_argument fs = .error (.ArgumentCount c.operands.length) := by
  unfold signal_file_argument
  rw [raw_argument_count fs h]
  rfl

/-- The operand, if it is the only one and leads somewhere, is not named
`.datom` and nothing else. -/
def NoBareDatom (fs : FileSystem) (c : ComponentCommand) : Prop :=
  ∀ operand, c.operands = [operand] → fs.exists_ (utf8 operand) = true →
    Path.file_name (utf8 operand) ≠ some (utf8 ".datom")

/-- What a daemon may expect of its argument. -/
structure TakesSignalFiles (fs : FileSystem) (c : ComponentCommand) : Prop where
  accepts : ∀ argument, c.signal_file_argument fs = .ok argument ↔
    ∃ operand, c.operands = [operand] ∧ argument = .SignalFile ⟨utf8 operand⟩ ∧ fs.exists_ (utf8 operand) = true ∧
      ¬ EndsInDatom (utf8 operand)
  counts : ∀ count, c.signal_file_argument fs = .error (.ArgumentCount count) ↔
    count = c.operands.length ∧ c.operands.length ≠ 1
  expects : c.signal_file_argument fs = .error .ExpectedSignalFile ↔
    ∃ operand, c.operands = [operand] ∧ (fs.exists_ (utf8 operand) = false ∨ EndsInDatom (utf8 operand))
  agrees : ∀ path, c.signal_file_argument fs = .ok (.SignalFile ⟨path⟩) →
    c.datom_argument fs = .ok (.DatomFile ⟨path⟩)

theorem signal_file_argument_cases {fs : FileSystem} {c : ComponentCommand} (hbare : NoBareDatom fs c) :
    (∃ operand, c.operands = [operand] ∧ fs.exists_ (utf8 operand) = true ∧ ¬ EndsInDatom (utf8 operand) ∧
      c.signal_file_argument fs = .ok (.SignalFile ⟨utf8 operand⟩)) ∨
    (∃ operand, c.operands = [operand] ∧ (fs.exists_ (utf8 operand) = false ∨ EndsInDatom (utf8 operand)) ∧
      c.signal_file_argument fs = .error .ExpectedSignalFile) ∨
    (c.operands.length ≠ 1 ∧ c.signal_file_argument fs = .error (.ArgumentCount c.operands.length)) := by
  by_cases hone : c.operands.length = 1
  · obtain ⟨operand, hsingle⟩ := List.length_eq_one_iff.1 hone
    have hresult := signal_file_argument_single fs hsingle
    by_cases hexists : fs.exists_ (utf8 operand) = true
    · have hdatom : ArgumentFilePath.is_datom_file ⟨utf8 operand⟩ = true ↔ EndsInDatom (utf8 operand) :=
        is_datom_file_iff.trans (and_iff_left (hbare operand hsingle hexists))
      by_cases hends : EndsInDatom (utf8 operand)
      · rw [if_neg (by simp [hdatom.2 hends])] at hresult
        exact .inr (.inl ⟨operand, hsingle, .inr hends, hresult⟩)
      · rw [if_pos ⟨hexists, Bool.eq_false_iff.2 (mt hdatom.1 hends)⟩] at hresult
        exact .inl ⟨operand, hsingle, hexists, hends, hresult⟩
    · rw [if_neg fun h => hexists h.1] at hresult
      exact .inr (.inl ⟨operand, hsingle, .inl (Bool.eq_false_iff.2 hexists), hresult⟩)
  · exact .inr (.inr ⟨hone, signal_file_argument_count fs hone⟩)

theorem only_operand {c : ComponentCommand} {operand operand' : String} (h : c.operands = [operand])
    (h' : c.operands = [operand']) : operand' = operand := by
  rw [h] at h'
  exact (List.singleton_inj.1 h').symm

theorem takes_accepted {fs : FileSystem} {c : ComponentCommand} {operand : String} (hsingle : c.operands = [operand])
    (hexists : fs.exists_ (utf8 operand) = true) (hends : ¬ EndsInDatom (utf8 operand))
    (hresult : c.signal_file_argument fs = .ok (.SignalFile ⟨utf8 operand⟩)) : TakesSignalFiles fs c := by
  refine ⟨fun argument => ?_, fun count => ?_, ?_, fun path hpath => ?_⟩
  · rw [hresult, Except.ok.injEq]
    constructor
    · rintro rfl
      exact ⟨operand, hsingle, rfl, hexists, hends⟩
    · rintro ⟨operand', hsingle', rfl, -⟩
      rw [only_operand hsingle hsingle']
  · rw [hresult, hsingle]
    exact iff_of_false (fun h => by cases h) fun h => h.2 rfl
  · rw [hresult]
    refine iff_of_false (fun h => by cases h) ?_
    rintro ⟨operand', hsingle', hwrong⟩
    obtain rfl := only_operand hsingle hsingle'
    rcases hwrong with hno | hdatom
    · rw [hexists] at hno
      cases hno
    · exact hends hdatom
  · rw [hresult] at hpath
    cases hpath
    rw [datom_argument_single hsingle, if_pos hexists]

theorem takes_rejected {fs : FileSystem} {c : ComponentCommand} {operand : String} (hsingle : c.operands = [operand])
    (hwrong : fs.exists_ (utf8 operand) = false ∨ EndsInDatom (utf8 operand))
    (hresult : c.signal_file_argument fs = .error .ExpectedSignalFile) : TakesSignalFiles fs c := by
  refine ⟨fun argument => ?_, fun count => ?_, ?_, fun path hpath => ?_⟩
  · rw [hresult]
    refine iff_of_false (fun h => by cases h) ?_
    rintro ⟨operand', hsingle', -, hexists, hends⟩
    obtain rfl := only_operand hsingle hsingle'
    rcases hwrong with hno | hdatom
    · rw [hexists] at hno
      cases hno
    · exact hends hdatom
  · rw [hresult, hsingle]
    exact iff_of_false (fun h => by cases h) fun h => h.2 rfl
  · exact iff_of_true hresult ⟨operand, hsingle, hwrong⟩
  · rw [hresult] at hpath
    cases hpath

theorem takes_counted {fs : FileSystem} {c : ComponentCommand} (hcount : c.operands.length ≠ 1)
    (hresult : c.signal_file_argument fs = .error (.ArgumentCount c.operands.length)) : TakesSignalFiles fs c := by
  have hnone : ∀ operand, c.operands ≠ [operand] := fun operand hsingle => hcount (by rw [hsingle]; rfl)
  refine ⟨fun argument => ?_, fun count => ?_, ?_, fun path hpath => ?_⟩
  · rw [hresult]
    exact iff_of_false (fun h => by cases h) fun ⟨operand, hsingle, _⟩ => hnone operand hsingle
  · rw [hresult, Except.error.injEq, ArgumentError.ArgumentCount.injEq, and_iff_left hcount]
    exact eq_comm
  · rw [hresult]
    exact iff_of_false (fun h => by cases h) fun ⟨operand, hsingle, _⟩ => hnone operand hsingle
  · rw [hresult] at hpath
    cases hpath

/-- A daemon gets signal files only, unless its one operand is a path named
`.datom` and nothing else, which has no extension. -/
theorem takes_signal_files_iff (fs : FileSystem) (c : ComponentCommand) : TakesSignalFiles fs c ↔ NoBareDatom fs c := by
  constructor
  · intro htakes operand hsingle hexists hname
    have hends : EndsInDatom (utf8 operand) := endsInDatom_iff.2 ⟨[], hname⟩
    have hdatom : ArgumentFilePath.is_datom_file ⟨utf8 operand⟩ = false :=
      Bool.eq_false_iff.2 fun h => (is_datom_file_iff.1 h).2 hname
    have hresult := signal_file_argument_single fs hsingle
    rw [if_pos ⟨hexists, hdatom⟩] at hresult
    obtain ⟨operand', hsingle', -, -, hno⟩ := (htakes.accepts _).1 hresult
    obtain rfl := only_operand hsingle hsingle'
    exact hno hends
  · intro hbare
    rcases signal_file_argument_cases hbare with
      ⟨operand, hsingle, hexists, hends, hresult⟩ | ⟨operand, hsingle, hwrong, hresult⟩ | ⟨hcount, hresult⟩
    · exact takes_accepted hsingle hexists hends hresult
    · exact takes_rejected hsingle hwrong hresult
    · exact takes_counted hcount hresult

/-- A regular file `/.datom`. -/
def withDatom : FileSystem where
  entry loc := if loc = [] then some .Directory else if loc = [utf8 ".datom"] then some (.RegularFile 0) else none
  cwd := []
  next := 0
  root := rfl
  fresh := by
    intro loc inode mode h
    split at h
    · cases h
    · split at h <;> cases h

theorem bare_datom_reaches_decoder :
    signal_file_argument withDatom ⟨["/.datom"]⟩ = .ok (.SignalFile ⟨utf8 "/.datom"⟩) ∧
      withDatom.exists_ (utf8 "/.datom") = true ∧ EndsInDatom (utf8 "/.datom") :=
  ⟨rfl, rfl, ⟨.Normal (utf8 ".datom"), rfl, [], rfl⟩⟩

end ComponentCommand

end TriadRuntime

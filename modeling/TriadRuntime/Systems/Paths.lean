import Mathlib.Data.List.Basic
import Mathlib.Tactic.Common
import TriadRuntime.Systems.Utf8
/-!
# Unix paths

A path is a string of bytes. A program reads it by its components, as Rust's
`std::path` does: empty segments and dots between slashes do not count. The
kernel reads it segment by segment, and a slash or a dot at the end says that
the path must lead to a directory.
-/

namespace Systems

abbrev Name := List UInt8

abbrev Path := List UInt8

inductive Component where
  | RootDir
  | CurDir
  | ParentDir
  | Normal (name : Name)
deriving DecidableEq, Repr

namespace Path

def slash : UInt8 := 47

def dot : UInt8 := 46

def segments (p : Path) : List Name := List.splitOn slash p

def isAbsolute (p : Path) : Bool := p.head? = some slash

/-- A segment as a component; `none` for those that do not count. -/
def ofSegment (segment : Name) : Option Component :=
  if segment = [] ∨ segment = [dot] then none
  else if segment = [dot, dot] then some .ParentDir
  else some (.Normal segment)

/-- `Path::components`: a dot counts only in front of a relative path. -/
def components (p : Path) : List Component :=
  let front := if p.isAbsolute then [.RootDir] else if p.segments.head? = some [dot] then [.CurDir] else []
  front ++ p.segments.filterMap ofSegment

def Component.bytes : Component → Name
  | .RootDir => []
  | .CurDir => [dot]
  | .ParentDir => [dot, dot]
  | .Normal name => name

/-- A path with these components. -/
def ofComponents (cs : List Component) : Path :=
  if cs = [.RootDir] then [slash] else [slash].intercalate (cs.map Component.bytes)

/-- `Path::parent`, up to the equality of paths, which is that of their components. -/
def parent (p : Path) : Option Path :=
  match p.components.getLast? with
  | none | some .RootDir => none
  | some _ => some (ofComponents p.components.dropLast)

/-- `PathBuf::join`: an absolute path replaces the one it is joined to. -/
def join (p inner : Path) : Path :=
  if inner.isAbsolute then inner
  else if p = [] ∨ p.getLast? = some slash then p ++ inner
  else p ++ slash :: inner

def file_name (p : Path) : Option Name :=
  match p.components.getLast? with
  | some (.Normal name) => some name
  | _ => none

/-- What stands before and behind the last dot. A dot in front does not count. -/
def rsplit_file_at_dot (file : Name) : Option Name × Option Name :=
  if file = [dot, dot] then (some file, none)
  else
    let after := (file.reverse.takeWhile (· ≠ dot)).reverse
    match file.reverse.dropWhile (· ≠ dot) with
    | [] => (none, some after)
    | _ :: before => if before = [] then (some file, none) else (some before.reverse, some after)

def extension (p : Path) : Option Name := do
  let (before, after) := rsplit_file_at_dot (← p.file_name)
  let _ ← before
  after

/-- The steps the kernel takes: here a dot stays where it is, and so does a
slash at the end, but only in a directory. -/
def steps (p : Path) : List Component :=
  let walked := p.segments.filterMap fun segment => if segment = [dot] then some .CurDir else ofSegment segment
  if p.getLast? = some slash then walked ++ [.CurDir] else walked

/-- A path above `p`. -/
inductive Ancestor : Path → Path → Prop where
  | parent {p q : Path} : p.parent = some q → Ancestor q p
  | up {p q r : Path} : Ancestor q p → q.parent = some r → Ancestor r p

/-! ## Components -/

theorem segments_no_slash {p : Path} {segment : Name} (h : segment ∈ p.segments) : slash ∉ segment := by
  unfold segments at h
  induction p generalizing segment with
  | nil =>
    rw [List.splitOn_nil, List.mem_singleton] at h
    subst h
    exact List.not_mem_nil
  | cons b p ih =>
    rw [List.splitOn_cons_eq_if_modifyHead] at h
    split at h
    · rcases List.mem_cons.1 h with rfl | h
      · exact List.not_mem_nil
      · exact ih h
    · rename_i hb
      obtain ⟨first, rest, hsplit⟩ := List.exists_cons_of_ne_nil (List.splitOn_ne_nil slash p)
      rw [hsplit] at ih h
      rcases List.mem_cons.1 h with rfl | h
      · intro hmem
        rcases List.mem_cons.1 hmem with hs | hmem
        · exact hb (by rw [hs]; exact beq_self_eq_true _)
        · exact ih List.mem_cons_self hmem
      · exact ih (List.mem_cons_of_mem _ h)

/-- What can stand between two slashes. -/
def Plain (c : Component) : Prop := ∃ segment, slash ∉ segment ∧ ofSegment segment = some c

theorem plain_of_mem {p : Path} {c : Component} (h : c ∈ p.segments.filterMap ofSegment) : Plain c := by
  obtain ⟨segment, hmem, hc⟩ := List.mem_filterMap.1 h
  exact ⟨segment, segments_no_slash hmem, hc⟩

theorem bytes_of_segment {segment : Name} {c : Component} (h : ofSegment segment = some c) : Component.bytes c = segment := by
  unfold ofSegment at h
  split at h
  · cases h
  · split at h
    · rename_i hdots
      cases h
      exact hdots.symm
    · cases h
      rfl

theorem Plain.no_slash {c : Component} (h : Plain c) : slash ∉ Component.bytes c := by
  obtain ⟨segment, hno, hc⟩ := h
  rw [bytes_of_segment hc]
  exact hno

theorem Plain.ofSegment_bytes {c : Component} (h : Plain c) : ofSegment (Component.bytes c) = some c := by
  obtain ⟨segment, -, hc⟩ := h
  rw [bytes_of_segment hc]
  exact hc

theorem Plain.ne_curDir {c : Component} (h : Plain c) : c ≠ .CurDir := by
  rintro rfl
  have := h.ofSegment_bytes
  simp [Component.bytes, ofSegment] at this

theorem components_absolute {p : Path} (h : p.isAbsolute = true) :
    p.components = .RootDir :: p.segments.filterMap ofSegment := by
  rw [components, if_pos h]
  rfl

theorem segments_ofComponents {cs : List Component} (hcs : ∀ c ∈ cs, Plain c) (hne : cs ≠ []) :
    (ofComponents (.RootDir :: cs)).segments = [] :: cs.map Component.bytes := by
  unfold ofComponents segments
  rw [if_neg (by simp [hne]), List.map_cons]
  refine List.splitOn_intercalate slash ?_ (by simp)
  intro segment hmem
  rcases List.mem_cons.1 hmem with rfl | hmem
  · exact List.not_mem_nil
  · obtain ⟨c, hc, rfl⟩ := List.mem_map.1 hmem
    exact (hcs c hc).no_slash

theorem filterMap_ofSegment_bytes {cs : List Component} (hcs : ∀ c ∈ cs, Plain c) :
    (cs.map Component.bytes).filterMap ofSegment = cs := by
  induction cs with
  | nil => rfl
  | cons c cs ih =>
    rw [List.map_cons, List.filterMap_cons, (hcs c List.mem_cons_self).ofSegment_bytes]
    rw [ih fun d hd => hcs d (List.mem_cons_of_mem _ hd)]

theorem isAbsolute_ofComponents (cs : List Component) : (ofComponents (.RootDir :: cs)).isAbsolute = true := by
  unfold ofComponents
  split
  · rfl
  · rename_i hne
    cases cs with
    | nil => exact absurd rfl hne
    | cons c cs => rfl

theorem components_ofComponents {cs : List Component} (hcs : ∀ c ∈ cs, Plain c) :
    (ofComponents (.RootDir :: cs)).components = .RootDir :: cs := by
  by_cases hne : cs = []
  · subst hne
    rfl
  · rw [components_absolute (isAbsolute_ofComponents cs), segments_ofComponents hcs hne, List.filterMap_cons,
      filterMap_ofSegment_bytes hcs]
    rfl

theorem parentDir_mem_filterMap_iff {segments : List Name} :
    .ParentDir ∈ segments.filterMap ofSegment ↔ [dot, dot] ∈ segments := by
  constructor
  · intro h
    obtain ⟨segment, hmem, hs⟩ := List.mem_filterMap.1 h
    have hdots := bytes_of_segment hs
    subst hdots
    exact hmem
  · exact fun h => List.mem_filterMap.2 ⟨_, h, rfl⟩

theorem parentDir_mem_iff {p : Path} : .ParentDir ∈ p.components ↔ [dot, dot] ∈ p.segments := by
  have hfront : .ParentDir ∉
      (if p.isAbsolute then [Component.RootDir] else if p.segments.head? = some [dot] then [.CurDir] else []) := by
    split
    · simp
    · split <;> simp
  rw [← parentDir_mem_filterMap_iff]
  unfold components
  exact List.mem_append.trans (or_iff_right hfront)

/-! ## Joining -/

theorem join_absolute {p inner : Path} (h : inner.isAbsolute = true) : p.join inner = inner := by
  rw [join, if_pos h]

/-- A relative path goes behind the directory, or the slash after it. -/
theorem join_relative {p inner : Path} (h : inner.isAbsolute = false) :
    p.join inner = p ++ ((if p = [] ∨ p.getLast? = some slash then [] else [slash]) ++ inner) := by
  rw [join, if_neg (by simp [h])]
  split <;> rfl

theorem isAbsolute_join {p inner : Path} (hp : p ≠ []) (h : inner.isAbsolute = false) :
    (p.join inner).isAbsolute = p.isAbsolute := by
  obtain ⟨b, p, rfl⟩ := List.exists_cons_of_ne_nil hp
  rw [join_relative h]
  rfl

theorem components_join {p inner : Path} (hp : p ≠ []) (h : inner.isAbsolute = false) :
    (p.join inner).components = p.components ++ inner.segments.filterMap ofSegment := by
  have hsegments : (p.join inner).segments.head? = p.segments.head? ∧
      (p.join inner).segments.filterMap ofSegment =
        p.segments.filterMap ofSegment ++ inner.segments.filterMap ofSegment := by
    unfold segments
    rw [join_relative h]
    by_cases hlast : p.getLast? = some slash
    · obtain ⟨before, rfl⟩ := List.getLast?_eq_some_iff.1 hlast
      have hne := List.splitOn_ne_nil slash before
      rw [if_pos (.inr hlast), List.nil_append, List.append_assoc, List.singleton_append,
        List.splitOn_append_cons_self, List.splitOn_append_cons_self, List.splitOn_nil, List.head?_append_of_ne_nil _ hne,
        List.head?_append_of_ne_nil _ hne, List.filterMap_append, List.filterMap_append]
      exact ⟨rfl, by simp [ofSegment]⟩
    · have hne := List.splitOn_ne_nil slash p
      rw [if_neg (by simp [hp, hlast]), List.singleton_append, List.splitOn_append_cons_self,
        List.head?_append_of_ne_nil _ hne, List.filterMap_append]
      exact ⟨rfl, rfl⟩
  unfold components
  rw [isAbsolute_join hp h, hsegments.1, hsegments.2, ← List.append_assoc]

theorem parentDir_mem_join_iff {p inner : Path} (hp : p ≠ []) (h : inner.isAbsolute = false) :
    .ParentDir ∈ (p.join inner).components ↔ .ParentDir ∈ p.components ∨ .ParentDir ∈ inner.components := by
  rw [components_join hp h, List.mem_append, parentDir_mem_filterMap_iff, ← parentDir_mem_iff]

/-- What is joined shows the directory, up to one slash at its end. -/
theorem join_inj_iff {p q inner : Path} (hp : p ≠ []) (hq : q ≠ []) (h : inner.isAbsolute = false) :
    p.join inner = q.join inner ↔
      p = q ∨ (p.getLast? ≠ some slash ∧ q = p ++ [slash]) ∨ (q.getLast? ≠ some slash ∧ p = q ++ [slash]) := by
  rw [join_relative h, join_relative h, ← List.append_assoc, ← List.append_assoc, List.append_left_inj]
  by_cases hps : p.getLast? = some slash
  · by_cases hqs : q.getLast? = some slash
    · simp [hps, hqs]
    · rw [if_pos (.inr hps), if_neg (by simp [hq, hqs]), List.append_nil]
      refine ⟨fun heq => .inr (.inr ⟨hqs, heq⟩), ?_⟩
      rintro (rfl | ⟨hno, -⟩ | ⟨-, heq⟩)
      · exact absurd hps hqs
      · exact absurd hps hno
      · exact heq
  · by_cases hqs : q.getLast? = some slash
    · rw [if_neg (by simp [hp, hps]), if_pos (.inr hqs), List.append_nil]
      refine ⟨fun heq => .inr (.inl ⟨hps, heq.symm⟩), ?_⟩
      rintro (rfl | ⟨-, heq⟩ | ⟨hno, -⟩)
      · exact absurd hqs hps
      · exact heq.symm
      · exact absurd hqs hno
    · rw [if_neg (by simp [hp, hps]), if_neg (by simp [hq, hqs]), List.append_left_inj]
      refine ⟨.inl, ?_⟩
      rintro (rfl | ⟨-, rfl⟩ | ⟨-, rfl⟩)
      · rfl
      · simp at hqs
      · simp at hps

/-! ## File names -/

theorem file_name_ne_dots {p : Path} {name : Name} (h : p.file_name = some name) : name ≠ [dot, dot] := by
  rintro rfl
  unfold file_name at h
  split at h
  · rename_i name hlast
    cases h
    have hmem := List.mem_of_getLast? hlast
    unfold components at hmem
    simp only at hmem
    rcases List.mem_append.1 hmem with hmem | hmem
    · split at hmem
      · simp at hmem
      · split at hmem <;> simp at hmem
    · have := (plain_of_mem hmem).ofSegment_bytes
      simp [Component.bytes, ofSegment] at this
  · cases h

theorem rsplit_file_at_dot_of_dot {stem ext : Name} (hstem : stem ≠ []) (hext : dot ∉ ext)
    (hdots : stem ++ dot :: ext ≠ [dot, dot]) : rsplit_file_at_dot (stem ++ dot :: ext) = (some stem, some ext) := by
  have hrev : (stem ++ dot :: ext).reverse = ext.reverse ++ dot :: stem.reverse := by simp
  have hkeep : ∀ b ∈ ext.reverse, decide (b ≠ dot) = true := by
    intro b hb
    rw [List.mem_reverse] at hb
    exact decide_eq_true fun h => hext (h ▸ hb)
  unfold rsplit_file_at_dot
  rw [if_neg hdots, hrev, List.takeWhile_append_of_pos hkeep, List.dropWhile_append_of_pos hkeep]
  simp [hstem]

theorem extension_eq_some_iff {p : Path} {ext : Name} :
    p.extension = some ext ↔ ∃ stem ≠ [], p.file_name = some (stem ++ dot :: ext) ∧ dot ∉ ext := by
  constructor
  · intro h
    unfold extension at h
    obtain ⟨file, hfile, h⟩ := Option.bind_eq_some_iff.1 h
    unfold rsplit_file_at_dot at h
    rw [if_neg (file_name_ne_dots hfile)] at h
    have hsplit := List.takeWhile_append_dropWhile (p := fun b => decide (b ≠ dot)) (l := file.reverse)
    simp only at h
    split at h
    · cases h
    · rename_i b before hdrop
      rw [hdrop] at hsplit
      split at h
      · cases h
      · rename_i hbefore
        have hb : b = dot := by
          have := List.head?_dropWhile_not (fun b => decide (b ≠ dot)) file.reverse
          rw [hdrop] at this
          simpa using this
        have hext : ext = (file.reverse.takeWhile fun b => decide (b ≠ dot)).reverse := (Option.some.inj h).symm
        refine ⟨before.reverse, by simpa using hbefore, ?_, ?_⟩
        · rw [hb] at hsplit
          have := congrArg List.reverse hsplit
          rw [hfile, hext]
          simpa using this.symm
        · intro hmem
          rw [hext, List.mem_reverse] at hmem
          simpa using List.all_eq_true.1 List.all_takeWhile _ hmem
  · rintro ⟨stem, hstem, hfile, hext⟩
    unfold extension
    rw [hfile, Option.bind_eq_bind, Option.bind_some, rsplit_file_at_dot_of_dot hstem hext (file_name_ne_dots hfile)]
    rfl

/-! ## Text -/

theorem isAbsolute_lossy (p : Path) : Path.isAbsolute (utf8 (from_utf8_lossy p)) = p.isAbsolute := by
  have := (from_utf8_lossy_lossy p).head?_iff (b := slash) (by decide)
  simp [isAbsolute, this]

theorem parentDir_mem_lossy_iff (p : Path) :
    .ParentDir ∈ Path.components (utf8 (from_utf8_lossy p)) ↔ .ParentDir ∈ p.components := by
  have hmem : ∀ {ss ss' : List Name}, List.Forall₂ Lossy ss ss' → ([dot, dot] ∈ ss' ↔ [dot, dot] ∈ ss) := by
    intro ss ss' h
    induction h with
    | nil => rfl
    | cons hs _ ih =>
      have : _ = [dot, dot] ↔ _ = [dot, dot] :=
        hs.eq_ascii_iff (List.forall_mem_cons.2 ⟨by decide, List.forall_mem_singleton.2 (by decide)⟩)
      rw [List.mem_cons, List.mem_cons, ih, eq_comm, ← this, eq_comm]
  rw [parentDir_mem_iff, parentDir_mem_iff]
  exact hmem ((from_utf8_lossy_lossy p).splitOn (by decide))

/-! ## Steps -/

def noDots (cs : List Component) : List Component := cs.filter (· ≠ .CurDir)

theorem noDots_append (cs ds : List Component) : noDots (cs ++ ds) = noDots cs ++ noDots ds :=
  List.filter_append ..

theorem noDots_noDots (cs : List Component) : noDots (noDots cs) = noDots cs := by simp [noDots]

/-- The kernel takes the steps that count. -/
theorem noDots_steps (p : Path) : noDots p.steps = p.segments.filterMap ofSegment := by
  have hwalked : ∀ segments : List Name,
      noDots (segments.filterMap fun segment => if segment = [dot] then some .CurDir else ofSegment segment) =
        segments.filterMap ofSegment := by
    intro segments
    induction segments with
    | nil => rfl
    | cons segment segments ih =>
      by_cases hdot : segment = [dot]
      · subst hdot
        rw [List.filterMap_cons, List.filterMap_cons, ← ih]
        rfl
      · rw [List.filterMap_cons, if_neg hdot, List.filterMap_cons]
        cases hs : ofSegment segment with
        | none => exact ih
        | some c =>
          have hc : c ≠ .CurDir := by
            rintro rfl
            unfold ofSegment at hs
            split at hs
            · cases hs
            · split at hs <;> cases hs
          rw [← ih]
          unfold noDots
          rw [List.filter_cons, if_pos (by simpa using hc)]
  unfold steps
  simp only
  split
  · rw [noDots_append, hwalked]
    exact List.append_nil _
  · exact hwalked _

/-- The parent of an absolute path is the path without its last component. -/
theorem parent_absolute {p q : Path} (h : p.isAbsolute = true) (hq : p.parent = some q) :
    ∃ cs c, noDots p.steps = cs ++ [c] ∧ noDots q.steps = cs ∧ q.isAbsolute = true ∧
      p.components = q.components ++ [c] ∧ Plain c := by
  have hcomponents := components_absolute h
  have hplain : ∀ c ∈ p.segments.filterMap ofSegment, Plain c := fun c hc => plain_of_mem hc
  rw [← noDots_steps] at hcomponents hplain
  rcases List.eq_nil_or_concat' (noDots p.steps) with hnil | ⟨cs, c, hcs⟩
  · rw [hnil] at hcomponents
    simp [parent, hcomponents] at hq
  · have hfront : ∀ d ∈ cs, Plain d := fun d hd => hplain d (by simp [hcs, hd])
    have hq' : q = ofComponents (.RootDir :: cs) := by
      rw [hcs] at hcomponents
      have hlast : p.components.getLast? = some c := by
        rw [hcomponents, ← List.cons_append, List.getLast?_concat]
      have hdrop : p.components.dropLast = .RootDir :: cs := by
        rw [hcomponents, ← List.cons_append, List.dropLast_concat]
      have hc : Plain c := hplain c (by simp [hcs])
      have hne : c ≠ .RootDir := by
        rintro rfl
        have := hc.ofSegment_bytes
        simp [Component.bytes, ofSegment] at this
      unfold parent at hq
      rw [hlast, hdrop] at hq
      cases c with
      | RootDir => exact absurd rfl hne
      | CurDir => exact (Option.some.inj hq).symm
      | ParentDir => exact (Option.some.inj hq).symm
      | Normal name => exact (Option.some.inj hq).symm
    have habs : q.isAbsolute = true := hq' ▸ isAbsolute_ofComponents cs
    have hqc : q.components = .RootDir :: cs := hq' ▸ components_ofComponents hfront
    refine ⟨cs, c, hcs, ?_, habs, ?_, hplain c (by simp [hcs])⟩
    · have := components_absolute habs
      rw [hqc, ← noDots_steps] at this
      exact (List.cons.inj this).2.symm
    · rw [hcomponents, hcs, hqc, List.cons_append]

theorem no_steps_of_no_parent {p : Path} (h : p.isAbsolute = true) (hroot : p.parent = none) : noDots p.steps = [] := by
  have hcomponents := components_absolute h
  rw [← noDots_steps] at hcomponents
  rcases List.eq_nil_or_concat' (noDots p.steps) with hnil | ⟨cs, c, hcs⟩
  · exact hnil
  · have hlast : p.components.getLast? = some c := by
      rw [hcomponents, hcs, ← List.cons_append, List.getLast?_concat]
    have hc : Plain c := plain_of_mem (p := p) (by simp [← noDots_steps, hcs])
    unfold parent at hroot
    rw [hlast] at hroot
    cases c with
    | RootDir =>
      have := hc.ofSegment_bytes
      simp [Component.bytes, ofSegment] at this
    | CurDir => cases hroot
    | ParentDir => cases hroot
    | Normal name => cases hroot

/-- Where the last step that counts stands. -/
theorem steps_of_noDots_append {steps cs : List Component} {c : Component} (h : noDots steps = cs ++ [c]) :
    ∃ before dots, steps = before ++ c :: dots ∧ noDots before = cs ∧ noDots dots = [] := by
  obtain ⟨before, after, rfl, hbefore, hafter⟩ := List.filter_eq_append_iff.1 h
  obtain ⟨dots, rest, rfl, hdots, -, hrest⟩ := List.filter_eq_cons_iff.1 hafter
  refine ⟨before ++ dots, rest, by simp, ?_, hrest⟩
  have hnil : noDots dots = [] := List.filter_eq_nil_iff.2 hdots
  rw [noDots_append, hnil, List.append_nil]
  exact hbefore

end Path

end Systems

import TriadRuntime.AsyncRun
/-!
# What a run leaves behind (`daemon.rs`, `async_runtime.rs`)

When `run` returns, its socket files should be gone from their paths and none of
its loops should accept any more. In the sync shells and the async single shell
the guards go with the daemon. The async multi shell has given them to the tasks
of the listeners, which it asks to end and does not wait for.

Trusted: nobody else changes the files, so that a guard that finds a socket can
remove it.
-/

open Systems

namespace TriadRuntime

/-! ## The sync shells -/

namespace SyncRun

variable {ι ε : Type*}

/-- The guards that have not been dropped. -/
def kept (s : SyncRun ι ε) : List BoundSocketFile :=
  match s.phase with
  | .returned | .unwound => []
  | _ => s.guards

/-- Wherever a socket of this shell is on disk, a guard looks that is still there. -/
structure Looked (s : SyncRun ι ε) : Prop where
  looked : Stopped.Looked s.fs s.guards s.kept
  unbound : s.phase = .unbound → s.guards = []

theorem looked_bind {c : SyncConfig ι} {fs fs' : FileSystem} {guards : List BoundSocketFile}
    (h : c.bind fs = .ok (fs', guards)) : Stopped.Looked fs' guards guards :=
  (UnixShell.bind_guarded _ ⟨by simp, by simp⟩ h).1.looked

theorem kept_eq {s : SyncRun ι ε} (hr : s.phase ≠ .returned) (hu : s.phase ≠ .unwound) : s.kept = s.guards := by
  unfold kept
  split
  · exact absurd ‹_› hr
  · exact absurd ‹_› hu
  · rfl

/-- The daemon is dropped with its guards. -/
theorem looked_drops {s : SyncRun ι ε} (hl : Looked s) (hr : s.phase ≠ .returned) (hu : s.phase ≠ .unwound) :
    Stopped.Looked (Stopped.unwind s.fs s.guards) s.guards [] := by
  have hlooked := hl.looked
  rw [kept_eq hr hu] at hlooked
  exact Stopped.looked_unwind hlooked

theorem looked_step {c : SyncConfig ι} {s t : SyncRun ι ε} {event : RunEvent ε} (hi : Inv s) (hl : Looked s)
    (h : step c s event = some t) : Looked t := by
  have hlooked := hl.looked
  cases step_moves hi h with
  | bind fs guards hp hb => exact ⟨looked_bind hb, by simp⟩
  | bind_fails stopped error hp hb herr =>
    refine ⟨?_, by simp⟩
    rw [hl.unbound hp]
    intro m hm
    cases hm
  | connect j stream daemon hp => exact ⟨hlooked, hl.unbound⟩
  | start daemon hp hloops =>
    rw [kept_eq (by simp [hp]) (by simp [hp])] at hlooked
    exact ⟨hlooked, by simp⟩
  | start_fails error hp => exact ⟨looked_drops hl (by simp [hp]) (by simp [hp]), by simp [drops]⟩
  | serve_on event daemon hp hd hloops => exact ⟨hlooked, hl.unbound⟩
  | serve_done daemon hp hd =>
    rw [kept_eq (by simp [hp]) (by simp [hp])] at hlooked
    exact ⟨hlooked, by simp⟩
  | serve_fails daemon error hp hd =>
    rw [kept_eq (by simp [hp]) (by simp [hp])] at hlooked
    exact ⟨hlooked, by simp⟩
  | serve_unwinds event daemon hp hd hu =>
    exact ⟨looked_drops (s := { s with daemon := daemon }) ⟨hlooked, hl.unbound⟩ (by simp [hp]) (by simp [hp]),
      by simp [drops]⟩
  | stop accept_result result hp => exact ⟨looked_drops hl (by simp [hp]) (by simp [hp]), by simp [drops]⟩

/-- No socket of this shell is at its path any more, and no stream is accepted. -/
def Clean (c : SyncConfig ι) (s : SyncRun ι ε) : Prop :=
  (∀ g ∈ s.guards, ∀ loc mode, s.fs.locate false g.path = .ok loc → s.fs.entry loc ≠ some (.Socket g.inode mode)) ∧
    ∀ later, exec (step c) s (later ++ [.serve .accept]) = none

theorem step_returned {c : SyncConfig ι} {s : SyncRun ι ε} (hp : s.phase = .returned) (event : RunEvent ε) :
    step c s event = none := by
  cases event <;> simp [step, hp]

theorem returned_clean {c : SyncConfig ι} {fs : FileSystem} {events : List (RunEvent ε)} {s : SyncRun ι ε}
    (h : exec (step c) (new c fs) events = some s) (hp : s.phase = .returned) : Clean c s := by
  have hlooked : Inv s ∧ Looked s := by
    refine exec_invariant (fun s => Inv s ∧ Looked s) ?_ h ⟨inv_new c fs, ?_, fun _ => rfl⟩
    · rintro s event t ⟨hi, hl⟩ hstep
      exact ⟨inv_step hi hstep, looked_step hi hl hstep⟩
    · intro m hm
      cases hm
  constructor
  · intro g hg loc mode _ he
    have hkept : s.kept = [] := by rw [kept, hp]
    obtain ⟨g', hg', -⟩ := hlooked.2.looked g hg loc mode he
    rw [hkept] at hg'
    cases hg'
  · intro later
    cases later with
    | nil => simp [exec, step_returned hp]
    | cons event later => simp [exec, step_returned hp]

end SyncRun

/-! ## The async shells -/

namespace Shell

variable {ι : Type*}

/-- Only its own events end a loop. -/
theorem step_loops {s t : Shell ι} {event : ShellEvent} (ha : s.Apart) (h : s.step event = some t) {j : Nat}
    {l : Listener ι} (hv : s.view j = some l) :
    ∃ l', t.view j = some l' ∧ (l'.loop.ended = l.loop.ended ∨ ∃ e, event = .listener j e ∧ e.ends = true) := by
  rcases (step_view ha h).2 j with hsame | ⟨e, x, l', he, hx, hstep, ht⟩
  · exact ⟨l, hsame.trans hv, .inl rfl⟩
  · rw [hv] at hx
    cases hx
    refine ⟨l', ht, ?_⟩
    cases hends : e.ends with
    | false => exact .inl (Listener.loop_of_not_ends hends hstep).1
    | true =>
      rcases he with rfl | rfl
      · exact .inr ⟨e, rfl, hends⟩
      · cases hends

/-- Every listener has its rows. -/
def Viewed (s : Shell ι) : Prop := ∀ j, j < s.listeners.length → ∃ l, s.view j = some l

theorem viewed_step {s t : Shell ι} {event : ShellEvent} (ha : s.Apart) (hv : s.Viewed) (h : s.step event = some t) :
    t.Viewed := by
  intro j hj
  rw [step_length h] at hj
  obtain ⟨l, hl⟩ := hv j hj
  obtain ⟨l', hl', -⟩ := step_loops ha h hl
  exact ⟨l', hl'⟩

theorem viewed_bind {kind : ShellKind} {limit : RequestConcurrencyLimit} {listeners : List ι} {s : Shell ι}
    (h : bind kind limit listeners = some s) : s.Viewed := by
  obtain ⟨hb, -⟩ := bind_binding h
  intro j hj
  rw [hb.length] at hj
  obtain ⟨gate, -, hv⟩ := hb.view j _ (List.getElem?_eq_getElem hj)
  exact ⟨_, hv⟩

end Shell

namespace AsyncRun

variable {ι ε : Type*}

/-- The guards that have not been dropped. -/
def kept (s : AsyncRun ι ε) : List BoundSocketFile := s.files.filterMap id

/-- No task of the multi shell is left when `runtime.stop()` returns. -/
def Joined (c : AsyncConfig ι) (s : AsyncRun ι ε) (event : AsyncEvent ε) : Prop :=
  ∀ result, event = .stop result → c.kind = .Multi → ∀ j l, s.shell.view j = some l → l.loop.ended = true

theorem kept_set {files : List (Option BoundSocketFile)} {j : Nat} {g : BoundSocketFile} (h : files[j]? = some (some g)) :
    ∀ g' ∈ files.filterMap id, g' = g ∨ g' ∈ (files.set j none).filterMap id := by
  intro g' hg'
  obtain ⟨row, hrow, hid⟩ := List.mem_filterMap.1 hg'
  obtain ⟨i, hi⟩ := List.mem_iff_getElem?.1 hrow
  cases hid
  by_cases hij : i = j
  · subst hij
    rw [h] at hi
    cases hi
    exact .inl rfl
  · refine .inr (List.mem_filterMap.2 ⟨some g', List.mem_iff_getElem?.2 ⟨i, ?_⟩, rfl⟩)
    rw [List.getElem?_set_ne (Ne.symm hij)]
    exact hi

theorem kept_none {files : List (Option BoundSocketFile)} (h : ∀ (j : Nat) (g : BoundSocketFile), files[j]? ≠ some (some g)) :
    files.filterMap id = [] := by
  refine List.eq_nil_iff_forall_not_mem.2 fun g hg => ?_
  obtain ⟨row, hrow, hid⟩ := List.mem_filterMap.1 hg
  obtain ⟨j, hj⟩ := List.mem_iff_getElem?.1 hrow
  cases hid
  exact h j g hj

/-- The guards of a shell that has been bound: a task of the multi shell has its
own until it ends, and the others go when `run` returns. -/
structure Files (c : AsyncConfig ι) (s : AsyncRun ι ε) : Prop where
  looked : Stopped.Looked s.fs s.made s.kept
  viewed : s.shell.Viewed
  rows : s.files.length ≤ s.shell.listeners.length
  owned : c.kind = .Multi → s.shell.loops_run = true → ∀ (j : Nat) (g : BoundSocketFile), s.files[j]? = some (some g) →
    ∃ l, s.shell.view j = some l ∧ l.loop.ended = false
  returned : s.shell.phase = .returned .Start ∨ (c.kind ≠ .Multi ∧ ∃ result, s.shell.phase = .returned result) → s.kept = []

theorem drop_file_cases (s : AsyncRun ι ε) (j : Nat) :
    (∃ g, s.files[j]? = some (some g) ∧ s.drop_file j = { s with fs := g.drop s.fs, files := s.files.set j none }) ∨
    (s.drop_file j = s ∧ ∀ g, s.files[j]? ≠ some (some g)) := by
  unfold drop_file
  split
  · rename_i g hg
    exact .inl ⟨g, hg, rfl⟩
  · rename_i hno
    exact .inr ⟨rfl, hno⟩

theorem files_bind {c : AsyncConfig ι} {s : AsyncRun ι ε} {shell : Shell ι} {fs : FileSystem}
    {guards : List BoundSocketFile} {record : Record AsyncListenerError ε} (h : c.bind s.fs = (fs, .ok guards))
    (hbind : Shell.bind c.kind c.limit (c.listener_sockets.map (·.1)) = some shell) :
    Files c ⟨.running, shell, fs, guards.map some, guards, record⟩ := by
  obtain ⟨hb, -⟩ := Shell.bind_binding hbind
  have hkept : (guards.map some).filterMap id = guards := by simp
  have hunix : ∀ unix : UnixShell, c.bind_unix unix s.fs = (fs, .ok guards) →
      Stopped.Looked fs guards guards ∧ guards.length = shell.listeners.length := by
    intro unix hu
    unfold AsyncConfig.bind_unix at hu
    split at hu
    · rename_i fs' guards' hok
      cases hu
      obtain ⟨hg, hlength⟩ := UnixShell.bind_guarded _ ⟨by simp, by simp⟩ hok
      refine ⟨hg.looked, ?_⟩
      rw [hlength, hb.length]
      simp
    · cases hu
  have hall : Stopped.Looked fs guards guards ∧ guards.length ≤ shell.listeners.length := by
    unfold AsyncConfig.bind at h
    split at h
    · exact ⟨(hunix _ h).1, Nat.le_of_eq (hunix _ h).2⟩
    · exact ⟨(hunix _ h).1, Nat.le_of_eq (hunix _ h).2⟩
    · split at h
      · cases h
      · cases h
      · cases h
        refine ⟨?_, Nat.zero_le _⟩
        intro m hm
        cases hm
  refine ⟨?_, Shell.viewed_bind hbind, by simpa using hall.2, fun _ hloops => ?_, fun hret => ?_⟩
  · unfold kept
    rw [hkept]
    exact hall.1
  · simp [Shell.loops_run, hb.phase] at hloops
  · simp [hb.phase] at hret

/-- All guards are dropped. -/
theorem files_drop_files {c : AsyncConfig ι} {s : AsyncRun ι ε} (hlooked : Stopped.Looked s.fs s.made s.kept)
    (hviewed : s.shell.Viewed) (hrows : s.files.length ≤ s.shell.listeners.length) : Files c s.drop_files := by
  have hnone : s.drop_files.kept = [] := by
    unfold kept drop_files
    rw [List.filterMap_map]
    simp
  refine ⟨?_, hviewed, by simpa [drop_files] using hrows, fun _ _ j g hg => ?_, fun _ => hnone⟩
  · rw [hnone]
    exact Stopped.looked_unwind hlooked
  · have hm := List.mem_of_getElem? hg
    simp [drop_files] at hm

/-- A step of the shell that drops no guard. -/
theorem files_shell {c : AsyncConfig ι} {s t : AsyncRun ι ε} {event : ShellEvent} (hs : Running c s) (hf : Files c s)
    (h : s.shell.step event = some t.shell) (hfs : t.fs = s.fs) (hfiles : t.files = s.files) (hmade : t.made = s.made)
    (hno : ∀ j e, event = .listener j e → c.kind = .Multi → e.ends = false)
    (hloops : t.shell.loops_run = true → s.shell.loops_run = true ∨ s.shell.Viewed ∧ ∀ j l, s.shell.view j = some l → Shell.Idle l)
    (hret : t.shell.phase = .returned .Start ∨ (c.kind ≠ .Multi ∧ ∃ result, t.shell.phase = .returned result) →
      s.kept = []) : Files c t := by
  have hkept : t.kept = s.kept := by unfold kept; rw [hfiles]
  refine ⟨?_, Shell.viewed_step hs.shell.apart hf.viewed h, ?_, fun hk hrun j g hg => ?_, fun hr => hkept.trans (hret hr)⟩
  · rw [hfs, hmade, hkept]
    exact hf.looked
  · rw [hfiles, Shell.step_length h]
    exact hf.rows
  · rw [hfiles] at hg
    have hlive : ∃ l, s.shell.view j = some l ∧ l.loop.ended = false := by
      rcases hloops hrun with hrun | ⟨hviewed, hidle⟩
      · exact hf.owned hk hrun j g hg
      · obtain ⟨hlt, -⟩ := List.getElem?_eq_some_iff.1 hg
        obtain ⟨l, hl⟩ := hviewed j (Nat.lt_of_lt_of_le hlt hf.rows)
        refine ⟨l, hl, ?_⟩
        rw [(hidle j l hl).2]
        rfl
    obtain ⟨l, hl, hended⟩ := hlive
    obtain ⟨l', hl', hsame | ⟨e, he, hends⟩⟩ := Shell.step_loops hs.shell.apart h hl
    · exact ⟨l', hl', hsame.trans hended⟩
    · rw [hno j e he hk] at hends
      cases hends

/-- The task of a listener ends, and its guard is dropped. -/
theorem files_ends {c : AsyncConfig ι} {s t : AsyncRun ι ε} {j : Nat} {e : ListenerEvent} (hs : Running c s)
    (hf : Files c s) (hk : c.kind = .Multi) (h : s.shell.step (.listener j e) = some t.shell) (hfs : t.fs = s.fs)
    (hfiles : t.files = s.files) (hmade : t.made = s.made) (hphase : t.shell.phase = s.shell.phase) :
    Files c (t.drop_file j) := by
  have hviewed := Shell.viewed_step hs.shell.apart hf.viewed h
  have hlength := Shell.step_length h
  have hkept : t.kept = s.kept := by unfold kept; rw [hfiles]
  have hloops : t.shell.loops_run = s.shell.loops_run := by unfold Shell.loops_run; rw [hphase]
  -- The other listeners go on as they were.
  have howned : s.shell.loops_run = true → ∀ (i : Nat) (g : BoundSocketFile), i ≠ j → s.files[i]? = some (some g) →
      ∃ l, t.shell.view i = some l ∧ l.loop.ended = false := by
    intro hrun i g hij hg
    obtain ⟨l, hl, hended⟩ := hf.owned hk hrun i g hg
    obtain ⟨l', hl', hsame | ⟨e', he, -⟩⟩ := Shell.step_loops hs.shell.apart h hl
    · exact ⟨l', hl', hsame.trans hended⟩
    · cases he
      exact absurd rfl hij
  have hret : s.shell.phase = .returned .Start ∨ (c.kind ≠ .Multi ∧ ∃ result, s.shell.phase = .returned result) →
      s.kept = [] := hf.returned
  rcases drop_file_cases t j with ⟨g, hg, heq⟩ | ⟨heq, hno⟩
  · rw [heq]
    rw [hfiles] at hg
    refine ⟨?_, hviewed, ?_, fun _ hrun i g' hg' => ?_, fun hr => ?_⟩
    · have hlooked := hf.looked
      rw [← hfs, ← hmade] at hlooked
      change Stopped.Looked (g.drop t.fs) t.made ((t.files.set j none).filterMap id)
      rw [hfiles]
      exact Stopped.looked_drop hlooked (kept_set hg)
    · change (t.files.set j none).length ≤ _
      rw [List.length_set, hfiles, hlength]
      exact hf.rows
    · change (t.files.set j none)[i]? = _ at hg'
      rcases getElem?_set_row hg' with ⟨-, hnone⟩ | ⟨hij, hg'⟩
      · cases hnone
      · rw [hfiles] at hg'
        exact howned (hloops ▸ hrun) i g' hij hg'
    · have hempty := hret (hphase ▸ hr)
      have hm : g ∈ s.kept := List.mem_filterMap.2 ⟨some g, List.mem_of_getElem? hg, rfl⟩
      rw [hempty] at hm
      cases hm
  · rw [heq]
    refine ⟨?_, hviewed, ?_, fun _ hrun i g' hg' => ?_, fun hr => hkept.trans (hret (hphase ▸ hr))⟩
    · rw [hfs, hmade, hkept]
      exact hf.looked
    · rw [hfiles, hlength]
      exact hf.rows
    · by_cases hij : i = j
      · subst hij
        exact absurd hg' (hno g')
      · rw [hfiles] at hg'
        exact howned (hloops ▸ hrun) i g' hij hg'

theorem files_step {c : AsyncConfig ι} {s t : AsyncRun ι ε} {event : AsyncEvent ε} (hi : Inv c s)
    (hf : s.phase = .running → Files c s) (h : step c s event = some t) : t.phase = .running → Files c t := by
  intro htp
  cases step_moves h with
  | bind fs guards shell hp hb hbind => exact files_bind hb hbind
  | bind_fails fs error hp => cases htp
  | bind_unwinds fs hp => cases htp
  | start shell hp hshell =>
    have hs := running_of_inv hi hp
    obtain ⟨hbound, rfl⟩ := Shell.start_some hshell
    refine files_shell hs (hf hp) hshell rfl rfl rfl (by simp) (fun _ => .inr ⟨(hf hp).viewed, ?_⟩) (by simp)
    exact hs.unbegun (by rw [Shell.loops_run, hbound])
  | start_fails error shell hp hshell =>
    exact files_drop_files (hf hp).looked (Shell.viewed_step (running_of_inv hi hp).shell.apart (hf hp).viewed hshell)
      (by simpa [Shell.step_length hshell] using (hf hp).rows)
  | listener j e shell hp hshell hlive =>
    have hsame := Shell.listener_phase hshell
    refine files_shell (running_of_inv hi hp) (hf hp) hshell rfl rfl rfl ?_ (fun hrun => .inl ?_) fun hr =>
      (hf hp).returned (hsame ▸ hr)
    · rintro i e' ⟨⟩ hk
      exact hlive hk
    · unfold Shell.loops_run at hrun ⊢
      rw [← hsame]
      exact hrun
  | task_ends j e shell hp hshell hk hends =>
    exact files_ends (running_of_inv hi hp) (hf hp) hk hshell rfl rfl rfl (Shell.listener_phase hshell)
  | join j l error shell hp hshell hserving hv hloop heq =>
    subst heq
    exact files_shell (running_of_inv hi hp) (hf hp) hshell rfl rfl rfl (by simp)
      (fun _ => .inl (by rw [Shell.loops_run, hserving])) (by simp)
  | join_none shell hp hshell =>
    obtain ⟨hserving, -, rfl⟩ := Shell.join_none_some hshell
    exact files_shell (running_of_inv hi hp) (hf hp) hshell rfl rfl rfl (by simp)
      (fun _ => .inl (by rw [Shell.loops_run, hserving])) (by simp)
  | tell_gate shell hp hshell =>
    obtain ⟨failure, told, l, l', hstop, -, -, rfl⟩ := Shell.tell_gate_some hshell
    exact files_shell (running_of_inv hi hp) (hf hp) hshell rfl rfl rfl (by simp)
      (fun _ => .inl (by rw [Shell.loops_run, hstop])) (by simp)
  | stop_tasks result failure told shell hp hstop hshell hk =>
    have hreturned := Shell.runtime_stop_some hstop hshell
    refine files_shell (running_of_inv hi hp) (hf hp) hshell rfl rfl rfl (by simp)
      (fun _ => .inl (by rw [Shell.loops_run, hstop])) fun hr => ?_
    simp [hreturned, Shell.result_ne_start, hk] at hr
  | stop result failure told shell hp hstop hshell hk =>
    exact files_drop_files (hf hp).looked (Shell.viewed_step (running_of_inv hi hp).shell.apart (hf hp).viewed hshell)
      (by simpa [Shell.step_length hshell] using (hf hp).rows)

/-- From `bind` on, a step is one of the shell's. -/
theorem shell_step {c : AsyncConfig ι} {s t : AsyncRun ι ε} {event : AsyncEvent ε} (hp : s.phase = .running)
    (h : step c s event = some t) : t.phase = .running ∧ ∃ e, s.shell.step e = some t.shell ∧
      (∀ j inner, event = .listener j inner → e = .listener j inner) ∧
      ∀ ok, e = .runtime_stop ok → ∃ result, event = .stop result := by
  cases step_moves h with
  | bind fs guards shell hu => rw [hp] at hu; cases hu
  | bind_fails fs error hu => rw [hp] at hu; cases hu
  | bind_unwinds fs hu => rw [hp] at hu; cases hu
  | start shell _ hshell => exact ⟨hp, _, hshell, by simp, by simp⟩
  | start_fails error shell _ hshell => exact ⟨hp, _, hshell, by simp, by simp⟩
  | listener j inner shell _ hshell => exact ⟨hp, _, hshell, by rintro j' inner' ⟨⟩; rfl, by simp⟩
  | task_ends j inner shell _ hshell =>
    obtain ⟨h1, h2, -⟩ := drop_file_keeps (ε := ε)
      { s with shell := shell, record := if inner.calls then s.record.handled else s.record } j
    exact ⟨h1.trans hp, .listener j inner, by rw [h2]; exact hshell, by rintro j' inner' ⟨⟩; rfl, by simp⟩
  | join j l error shell _ hshell => exact ⟨hp, _, hshell, by simp, by simp⟩
  | join_none shell _ hshell => exact ⟨hp, _, hshell, by simp, by simp⟩
  | tell_gate shell _ hshell => exact ⟨hp, _, hshell, by simp, by simp⟩
  | stop_tasks result failure told shell _ _ hshell => exact ⟨hp, _, hshell, by simp, fun _ _ => ⟨result, rfl⟩⟩
  | stop result failure told shell _ _ hshell => exact ⟨hp, _, hshell, by simp, fun _ _ => ⟨result, rfl⟩⟩

/-- A step that is none of the shell's is `bind`. -/
theorem bind_step {c : AsyncConfig ι} {s t : AsyncRun ι ε} {event : AsyncEvent ε} (hp : s.phase ≠ .running)
    (h : step c s event = some t) : s.phase = .unbound ∧
      ((t.shell = s.shell ∧ t.phase ≠ .running ∧ t.phase ≠ .unbound) ∨ (t.phase = .running ∧ c.bind s.fs = (t.fs, .ok t.made) ∧
        Shell.bind c.kind c.limit (c.listener_sockets.map (·.1)) = some t.shell)) := by
  cases step_moves h with
  | bind fs guards shell hu hb hbind => exact ⟨hu, .inr ⟨rfl, hb, hbind⟩⟩
  | bind_fails fs error hu => exact ⟨hu, .inl ⟨rfl, by simp, by simp⟩⟩
  | bind_unwinds fs hu => exact ⟨hu, .inl ⟨rfl, by simp, by simp⟩⟩
  | start _ hr | start_fails _ _ hr | listener _ _ _ hr | task_ends _ _ _ hr | join _ _ _ _ hr | join_none _ hr
  | tell_gate _ hr | stop_tasks _ _ _ _ hr | stop _ _ _ _ hr => exact absurd hr hp

end AsyncRun

/-! ## Loops that are done -/

namespace Shell

variable {ι : Type*}

/-- No loop of this shell will accept again. -/
def Done (s : Shell ι) : Prop := s.phase = .returned .Start ∨ ∀ j l, s.view j = some l → l.loop.ended = true

theorem done_step {s t : Shell ι} {event : ShellEvent} (ha : s.Apart) (hd : s.Done) (h : s.step event = some t) :
    t.Done ∧ ∀ j, event ≠ .listener j .accept := by
  rcases hd with hp | hall
  · rcases step_cases h with ⟨ok, -, hp', rfl⟩ | ⟨j, e, l, l', rfl, -, hallow, -, rfl⟩ | ⟨failure, hp', -, rfl⟩ |
      ⟨failure, told, l, l', -, hp', -, -, rfl⟩ | ⟨ok, failure, told, -, hp', -, rfl⟩
    · rw [hp] at hp'; cases hp'
    · refine ⟨.inl ((put_phase s j l').trans hp), fun i hacc => ?_⟩
      cases hacc
      simp [allows, loops_run, hp] at hallow
    · rw [hp] at hp'; cases hp'
    · rw [hp] at hp'; cases hp'
    · rw [hp] at hp'; cases hp'
  · refine ⟨.inr fun j x hx => ?_, fun j hacc => ?_⟩
    · rcases (step_view ha h).2 j with hsame | ⟨e, l, l', -, hl, hstep, ht⟩
      · exact hall j x (hsame ▸ hx)
      · rw [ht] at hx
        cases hx
        rw [Listener.ended_step (hall j l hl) hstep]
        exact hall j l hl
    · subst hacc
      obtain ⟨l, l', hv, -, hl, -⟩ := step_listener.1 h
      have hended := hall j l hv
      cases Listener.step_moves hl with
      | accept stream rest hloop hpend =>
        rw [hloop] at hended
        cases hended
      | fails event error hfail => cases hfail

end Shell

namespace AsyncRun

variable {ι ε : Type*}

theorem done_run {c : AsyncConfig ι} {s : AsyncRun ι ε} (hi : Inv c s) (hp : s.phase = .running) (hd : s.shell.Done)
    (later : List (AsyncEvent ε)) (j : Nat) : exec (step c) s (later ++ [.listener j .accept]) = none := by
  rw [Option.eq_none_iff_forall_ne_some]
  intro t h
  obtain ⟨u, hu, hlast⟩ := exec_append.1 h
  obtain ⟨v, hv, -⟩ := exec_cons.1 hlast
  have hdone : Inv c u ∧ u.phase = .running ∧ u.shell.Done := by
    refine exec_invariant (fun s => Inv c s ∧ s.phase = .running ∧ s.shell.Done) ?_ hu ⟨hi, hp, hd⟩
    rintro s event t ⟨hi, hp, hd⟩ hstep
    obtain ⟨hp', e, he, -⟩ := shell_step hp hstep
    exact ⟨(inv_step hi hstep).1, hp', (Shell.done_step (running_of_inv hi hp).shell.apart hd he).1⟩
  obtain ⟨hiu, hpu, hdu⟩ := hdone
  obtain ⟨-, e, he, hlisten, -⟩ := shell_step hpu hv
  exact (Shell.done_step (running_of_inv hiu hpu).shell.apart hdu he).2 j (hlisten j .accept rfl)

/-- When the shell has returned, its loops are done. -/
def Ended (s : AsyncRun ι ε) : Prop :=
  s.phase = .running → ∀ result, s.shell.phase = .returned result → s.shell.Done

theorem ended_step {c : AsyncConfig ι} {s t : AsyncRun ι ε} {event : AsyncEvent ε} (hi : Inv c s) (he : Ended s)
    (hj : Joined c s event) (h : step c s event = some t) : Ended t := by
  intro hp result hret
  by_cases hps : s.phase = .running
  · have hs := running_of_inv hi hps
    obtain ⟨-, e, hshell, -, hstop⟩ := shell_step hps h
    rcases Shell.step_cases hshell with ⟨ok, -, -, ht⟩ | ⟨j, inner, l, l', -, -, -, -, ht⟩ | ⟨failure, -, -, ht⟩ |
      ⟨failure, told, l, l', -, -, -, -, ht⟩ | ⟨ok, failure, told, rfl, hstopping, -, ht⟩
    · rw [ht] at hret ⊢
      cases ok with
      | true => cases hret
      | false => exact .inl rfl
    · have hold : s.shell.phase = .returned result := by
        rw [ht] at hret
        exact (Shell.put_phase s.shell j l').symm.trans hret
      exact (Shell.done_step hs.shell.apart (he hps result hold) hshell).1
    · rw [ht] at hret
      cases hret
    · rw [ht] at hret
      cases hret
    · obtain ⟨stopped, rfl⟩ := hstop ok rfl
      refine .inr fun j l hv => ?_
      have hv' : s.shell.view j = some l := by rw [ht] at hv; exact hv
      by_cases hk : c.kind = .Multi
      · exact hj stopped rfl hk j l hv'
      · have hrecord := hs.record
        rw [hstopping] at hrecord
        exact ended_of_single hs hk hrecord.2.1 hv'
  · rcases (bind_step hps h).2 with ⟨-, hno, -⟩ | ⟨-, -, hbind⟩
    · exact absurd hp hno
    · rw [(Shell.bind_binding hbind).1.phase] at hret
      cases hret

/-- No socket of this shell is at its path any more, and no connection is accepted. -/
def Clean (c : AsyncConfig ι) (s : AsyncRun ι ε) : Prop :=
  (∀ g ∈ s.made, ∀ loc mode, s.fs.locate false g.path = .ok loc → s.fs.entry loc ≠ some (.Socket g.inode mode)) ∧
    ∀ later j, exec (step c) s (later ++ [.listener j .accept]) = none

/-- Where the loops are done, so are the guards. -/
theorem kept_done {c : AsyncConfig ι} {s : AsyncRun ι ε} (hf : Files c s) {result : RunResult}
    (hret : s.shell.phase = .returned result) (hd : s.shell.Done) : s.kept = [] := by
  by_cases hstart : s.shell.phase = .returned .Start
  · exact hf.returned (.inl hstart)
  by_cases hk : c.kind = .Multi
  · rcases hd with hstart' | hall
    · exact absurd hstart' hstart
    have hloops : s.shell.loops_run = true := by
      rw [← Bool.not_eq_false]
      intro hno
      rcases Shell.loops_run_false hno with hb | hb
      · rw [hret] at hb
        cases hb
      · exact hstart hb
    refine kept_none fun j g hg => ?_
    obtain ⟨l, hv, hlive⟩ := hf.owned hk hloops j g hg
    rw [hall j l hv] at hlive
    cases hlive
  · exact hf.returned (.inr ⟨hk, result, hret⟩)

theorem returned_clean {c : AsyncConfig ι} {fs : FileSystem} {events : List (AsyncEvent ε)} {s : AsyncRun ι ε}
    {result : RunResult} (hj : Along (step c) (Joined c) (new c fs) events)
    (h : exec (step c) (new c fs) events = some s) (hp : s.phase = .running)
    (hret : s.shell.phase = .returned result) : Clean c s := by
  have hinv : Inv c s ∧ (s.phase = .running → Files c s) ∧ Ended s := by
    refine exec_invariant_along (fun s => Inv c s ∧ (s.phase = .running → Files c s) ∧ Ended s) ?_ hj h ?_
    · rintro s event t ⟨hi, hf, he⟩ hjoined hstep
      exact ⟨(inv_step hi hstep).1, files_step hi hf hstep, ended_step hi he hjoined hstep⟩
    · exact ⟨⟨rfl, rfl⟩, by rintro ⟨⟩, by rintro ⟨⟩⟩
  obtain ⟨hi, hf, he⟩ := hinv
  have hdone := he hp result hret
  refine ⟨fun g hg loc mode _ hthere => ?_, done_run hi hp hdone⟩
  obtain ⟨g', hg', -⟩ := (hf hp).looked g hg loc mode hthere
  rw [kept_done (hf hp) hret hdone] at hg'
  cases hg'

/-- A step of a listener that does not end its loop. -/
theorem step_listener_live {c : AsyncConfig ι} {s : AsyncRun ι ε} {shell : Shell ι} {j : Nat} {e : ListenerEvent}
    (hp : s.phase = .running) (he : e.ends = false) (h : s.shell.step (.listener j e) = some shell) :
    step c s (.listener j e) =
      some { s with shell := shell, record := if e.calls then s.record.handled else s.record } := by
  simp [step, hp, h, he]

/-- A loop that waits for connections will still accept one. -/
theorem accepting_not_clean {c : AsyncConfig ι} {s : AsyncRun ι ε} (hp : s.phase = .running)
    (hloops : s.shell.loops_run = true) {j : Nat} {l : Listener ι} (hv : s.shell.view j = some l)
    (hl : l.loop = .accepting) : ¬ Clean c s := by
  rintro ⟨-, hclosed⟩
  -- A client connects, and the loop takes the oldest that waits.
  obtain ⟨t, ht, hpt, hloops', l', hv', hl', stream, rest, hpending⟩ : ∃ t, step c s (.listener j (.connect 0)) = some t ∧
      t.phase = .running ∧ t.shell.loops_run = true ∧ ∃ l', t.shell.view j = some l' ∧ l'.loop = .accepting ∧
        ∃ stream rest, l'.pending = stream :: rest := by
    refine ⟨_, step_listener_live hp rfl (Shell.step_listener.2 ⟨l, _, hv, rfl, rfl, rfl⟩), hp, ?_, _,
      Shell.view_put_self hv rfl, hl, ?_⟩
    · unfold Shell.loops_run at hloops ⊢
      simp only [Shell.put_phase]
      exact hloops
    · cases l.pending with
      | nil => exact ⟨0, [], rfl⟩
      | cons stream rest => exact ⟨stream, rest ++ [0], rfl⟩
  have haccept : l'.step .accept =
      some { l' with pending := rest, loop := .accepted stream, accepted := l'.accepted ++ [stream] } := by
    simp [Listener.step, hl', hpending]
  have hshell := Shell.step_listener.2 ⟨l', _, hv', by simpa [Shell.allows] using hloops', haccept, rfl⟩
  have hnone := hclosed [.listener j (.connect 0)] j
  rw [List.singleton_append, exec, ht, Option.bind_some, exec, step_listener_live hpt rfl hshell] at hnone
  cases hnone

end AsyncRun

/-! ## What is left when `run` returns -/

/-- When `run` of a sync or an async single shell has returned, or that of a multi
shell whose tasks had all ended when the runtime was stopped, no socket file is
left and no loop accepts; a loop of a multi shell that still waits for
connections will accept one. -/
theorem returned_run_clean {ι ε : Type*} :
    (∀ (c : SyncConfig ι) (fs : FileSystem) (events : List (RunEvent ε)) (s : SyncRun ι ε),
      exec (SyncRun.step c) (.new c fs) events = some s → s.phase = .returned → s.Clean c) ∧
    (∀ (c : AsyncConfig ι) (fs : FileSystem) (events : List (AsyncEvent ε)) (s : AsyncRun ι ε) (result : RunResult),
      exec (AsyncRun.step c) (.new c fs) events = some s → s.phase = .running → s.shell.phase = .returned result →
      (Along (AsyncRun.step c) (AsyncRun.Joined c) (.new c fs) events → s.Clean c) ∧
        ∀ j l, result ≠ .Start → s.shell.view j = some l → l.loop = .accepting → ¬ s.Clean c) := by
  refine ⟨fun c fs events s h hp => SyncRun.returned_clean h hp, fun c fs events s result h hp hret => ⟨?_, ?_⟩⟩
  · intro hj
    exact AsyncRun.returned_clean hj h hp hret
  · intro j l hstart hv hl
    refine AsyncRun.accepting_not_clean hp ?_ hv hl
    rw [← Bool.not_eq_false]
    intro hno
    rcases Shell.loops_run_false hno with hb | hb
    · rw [hret] at hb
      cases hb
    · rw [hret] at hb
      exact hstart (ShellPhase.returned.inj hb)

/-- Listener 0 at `/s`, listener 1 at `/t`. -/
def atTwoPaths : AsyncConfig Nat :=
  ⟨.Multi, [(0, ⟨World.slashS, noFaults, false⟩), (1, ⟨World.slashT, noFaults, false⟩)], Gate.one, 0o755, none, by simp⟩

/-- Listener 0 fails to accept, and the gates are stopped. -/
def firstFails : List (AsyncEvent Unit) :=
  [.bind, .start (.ok ()), .listener 0 .accept_fails, .join 0, .tell_gate, .tell_gate, .listener 0 .gate_handles,
    .listener 1 .gate_handles]

theorem returned_run_clean_firstFails :
    ∃ s, exec (AsyncRun.step atTwoPaths) (.new atTwoPaths .bare) (firstFails ++ [.listener 1 .cancel] ++ [.stop (.ok ())])
      = some s ∧ s.shell.phase = .returned (.Listener .Io) ∧ s.made.length = 2 ∧ s.Clean atTwoPaths := by
  have hbefore : (exec (AsyncRun.step atTwoPaths) (.new atTwoPaths .bare) (firstFails ++ [.listener 1 .cancel])).any
      (fun u => u.shell.listeners.all (·.loop.ended)) = true := by decide +kernel
  have hafter : (exec (AsyncRun.step atTwoPaths) (.new atTwoPaths .bare)
      (firstFails ++ [.listener 1 .cancel] ++ [.stop (.ok ())])).any
      (fun s => s.phase = .running && s.shell.phase = .returned (.Listener .Io) && s.made.length = 2) = true := by decide +kernel
  obtain ⟨u, hu, hended⟩ := (Option.any_eq_true _ _).1 hbefore
  obtain ⟨s, hs, hp⟩ := (Option.any_eq_true _ _).1 hafter
  simp only [Bool.and_eq_true, decide_eq_true_eq] at hp
  have hjoined : Along (AsyncRun.step atTwoPaths) (AsyncRun.Joined atTwoPaths) (.new atTwoPaths .bare)
      (firstFails ++ [.listener 1 .cancel] ++ [.stop (.ok ())]) := by
    refine (along_append hu).2 ⟨along_of_forall ?_ _, fun _ _ _ j l hv => ?_, fun _ _ => trivial⟩
    · rintro event hm s result rfl
      simp [firstFails] at hm
    · obtain ⟨a, ha, -, -, -, hloop, -⟩ := Shell.view_some.1 hv
      rw [← hloop]
      exact List.all_eq_true.1 hended a (List.mem_of_getElem? ha)
  exact ⟨s, hs, hp.1.2, hp.2, (returned_run_clean.2 atTwoPaths .bare _ s _ hs hp.1.1 hp.1.2).1 hjoined⟩

/-- The task of listener 1 has been aborted but not yet dropped: its socket file
is at `/t`, and it accepts a client. -/
theorem aborted_listener_accepts :
    ¬ ∀ (c : AsyncConfig Nat) (fs : FileSystem) (events : List (AsyncEvent Unit)) (s : AsyncRun Nat Unit)
      (result : RunResult), exec (AsyncRun.step c) (.new c fs) events = some s → s.phase = .running →
      s.shell.phase = .returned result → s.Clean c := by
  intro hclaim
  have hrun : (exec (AsyncRun.step atTwoPaths) (.new atTwoPaths .bare) (firstFails ++ [.stop (.ok ())])).any (fun s =>
      s.phase = .running && s.shell.phase = .returned (.Listener .Io) && s.made.contains ⟨World.slashT.path, 1⟩ &&
      s.fs.entry [[116]] = some (.Socket 1 0o755) && (s.fs.locate false World.slashT.path).toOption = some [[116]] &&
      (exec (AsyncRun.step atTwoPaths) s [.listener 1 (.connect 7), .listener 1 .accept]).isSome) = true := by decide +kernel
  obtain ⟨s, hexec, hs⟩ := (Option.any_eq_true _ _).1 hrun
  simp only [Bool.and_eq_true, decide_eq_true_eq, List.contains_iff_mem] at hs
  obtain ⟨⟨⟨⟨⟨hp, hret⟩, hmade⟩, hthere⟩, hlocate⟩, -⟩ := hs
  obtain ⟨hgone, -⟩ := hclaim atTwoPaths .bare _ s _ hexec hp hret
  cases hl : s.fs.locate false World.slashT.path with
  | ok loc =>
    rw [hl] at hlocate
    cases hlocate
    exact hgone _ hmade _ _ hl hthere
  | error e =>
    rw [hl] at hlocate
    cases hlocate

end TriadRuntime

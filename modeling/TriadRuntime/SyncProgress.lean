import TriadRuntime.Systems.Progress
import TriadRuntime.SyncServe
/-!
# The backlog of a synchronous daemon (`daemon.rs`)

`serve_streams` works off what has come to its sockets: on every pass over the
listeners the first of them that has a connection is served, so the multi shell
takes all connections of one listener before the first of the next.
-/

open Systems

namespace TriadRuntime

/-- A point where nothing has been accepted, outside the loop over the listeners. -/
def ServePoint.resting : ServePoint → Bool
  | .accepting _ _ => false
  | .accepted _ _ _ => false
  | _ => true

namespace SyncDaemon

variable {ι : Type*}

/-- Nobody connects, the runtime goes on, `accept` reports that it would block
only where nobody waits, and nothing fails but requests. -/
def Ordinary (s : SyncDaemon ι) : SyncEvent → Prop
  | .connect _ _ => False
  | .call _ => False
  | .should_continue continues => continues = true
  | .would_block => ∀ within i row, s.point = .accepting within i → s.listeners[i]? = some row → row.pending = []
  | .accept_fails _ => False
  | .handler_returns outcome => outcome ≠ .panicked
  | .log ok => ok = true
  | _ => True

/-! ## What waits -/

/-- What waits at the listeners `rows`, of which the first has index `index`. -/
def backlogFrom : Nat → List (BoundListener ι) → List (Handed ι)
  | _, [] => []
  | index, row :: rows =>
    row.pending.map (fun stream => ⟨index, row.listener, stream⟩) ++ backlogFrom (index + 1) rows

/-- What waits, listener by listener, as it is to be handed on. -/
def backlog (s : SyncDaemon ι) : List (Handed ι) := backlogFrom 0 s.listeners

/-- What has been accepted and is handed on next. -/
def onTheWay (s : SyncDaemon ι) : List (Handed ι) :=
  match s.point with
  | .accepted _ index stream => (s.listeners[index]?.map fun row => ⟨index, row.listener, stream⟩).toList
  | _ => []

theorem backlogFrom_nil (index : Nat) (rows : List (BoundListener ι)) :
    backlogFrom index rows = [] ↔ ∀ row ∈ rows, row.pending = [] := by
  induction rows generalizing index with
  | nil => simp [backlogFrom]
  | cons row rows ih => simp [backlogFrom, ih]

/-- The first listener with a connection gives the first of the backlog. -/
theorem backlogFrom_takes {rows : List (BoundListener ι)} {i : Nat} {row : BoundListener ι} {stream : Stream}
    {rest : List Stream} (index : Nat) (hrow : rows[i]? = some row) (hpend : row.pending = stream :: rest)
    (hbefore : ∀ j < i, ∀ r, rows[j]? = some r → r.pending = []) :
    backlogFrom index rows =
      ⟨index + i, row.listener, stream⟩ :: backlogFrom index (rows.set i { row with pending := rest }) := by
  induction rows generalizing index i with
  | nil => cases hrow
  | cons r rows ih =>
    cases i with
    | zero =>
      cases hrow
      simp only [backlogFrom, hpend, List.set_cons_zero, List.map_cons, List.cons_append, Nat.add_zero]
    | succ i =>
      have hfirst : r.pending = [] := hbefore 0 (Nat.succ_pos i) r rfl
      have hmore := ih (index + 1) hrow fun j hj r' hr' => hbefore (j + 1) (Nat.succ_lt_succ hj) r' hr'
      rw [List.set_cons_succ, backlogFrom, backlogFrom, hfirst, hmore, Nat.add_right_comm, Nat.add_assoc]
      rfl

/-! ## What no step loses -/

@[simp] theorem go_on_scan (s : SyncDaemon ι) (within : Within) (result : ServeResult) :
    (s.go_on within result).scan = s.scan := by
  unfold go_on
  repeat' split
  all_goals rfl

@[simp] theorem go_on_kind (s : SyncDaemon ι) (within : Within) (result : ServeResult) :
    (s.go_on within result).kind = s.kind := by
  unfold go_on
  repeat' split
  all_goals rfl

@[simp] theorem end_scan_handed (s : SyncDaemon ι) (within : Within) (result : ServeResult) :
    (s.end_scan within result).handed = s.handed := by
  unfold handed
  rw [end_scan_passes, end_scan, go_on_scan]
  simp [noScan]

@[simp] theorem scan_at_kind (s : SyncDaemon ι) (within : Within) (index : Nat) :
    (s.scan_at within index).kind = s.kind := by
  unfold scan_at
  split
  · rfl
  · exact go_on_kind _ within _

theorem step_kind {s t : SyncDaemon ι} {event : SyncEvent} (h : s.step event = some t) : t.kind = s.kind := by
  cases step_moves h with
  | tries hpt => exact scan_at_kind s _ _
  | next_on outer hpt => exact scan_at_kind s _ _
  | would_block within i hpt hblock => exact scan_at_kind _ _ _
  | accept_fails within i error hpt => exact go_on_kind _ _ _
  | handled within i stream hpt => exact go_on_kind _ _ _
  | panics within i stream hpt => exact go_on_kind _ _ _
  | logged within i stream hpt => exact go_on_kind _ _ _
  | unlogged within i stream hpt => exact go_on_kind _ _ _
  | _ => rfl

/-! ## Working off the backlog -/

/-- `serve_streams` is under way. -/
def Serving (s : SyncDaemon ι) (within : Within) : Prop :=
  within = .next true ∨ within = .blocking true ∧ s.listeners.length = 1

/-- What is handed on, on its way and waiting is `all`, in this order, and the
listeners that the pass under way is past have nobody waiting. -/
structure Draining (all : List (Handed ι)) (s : SyncDaemon ι) : Prop where
  serving : ∃ within, s.point.within = some within ∧ s.Serving within
  inside : ∀ within i, s.point = .accepting within i ∨ (∃ stream, s.point = .accepted within i stream) →
    i < s.listeners.length
  before : ∀ within i, s.point = .accepting within i → ∀ j < i, ∀ row, s.listeners[j]? = some row → row.pending = []
  kept : s.handed ++ s.onTheWay ++ s.backlog = all

section Drains
variable {all : List (Handed ι)} {s t : SyncDaemon ι}

theorem onTheWay_resting (h : s.point.resting = true) : s.onTheWay = [] := by
  unfold onTheWay
  split
  · rename_i hpt
    rw [hpt] at h
    cases h
  · rfl

theorem draining_resting (point : ServePoint) {within : Within} (hpoint : point.resting = true)
    (hwithin : point.within = some within) (hs : s.Serving within) (hkept : s.handed ++ s.backlog = all) :
    Draining all { s with point := point } := by
  refine ⟨⟨within, hwithin, hs⟩, ?_, ?_, ?_⟩
  · rintro w i (hpt | ⟨stream, hpt⟩)
    · rw [show point = _ from hpt] at hpoint
      cases hpoint
    · rw [show point = _ from hpt] at hpoint
      cases hpoint
  · intro w i hpt
    rw [show point = _ from hpt] at hpoint
    cases hpoint
  · rw [onTheWay_resting (s := { s with point := point }) hpoint, List.append_nil]
    exact hkept

theorem draining_accepting {within : Within} {i : Nat} (hs : s.Serving within) (hi : i < s.listeners.length)
    (hbefore : ∀ j < i, ∀ row, s.listeners[j]? = some row → row.pending = []) (hkept : s.handed ++ s.backlog = all) :
    Draining all { s with point := .accepting within i } := by
  refine ⟨⟨within, rfl, hs⟩, ?_, ?_, ?_⟩
  · rintro w k (hpt | ⟨stream, hpt⟩)
    · cases hpt
      exact hi
    · cases hpt
  · intro w k hpt
    cases hpt
    exact hbefore
  · rw [show onTheWay { s with point := .accepting within i } = [] from rfl, List.append_nil]
    exact hkept

/-- A pass ends, having served somebody or not, and `serve_streams` goes on. -/
theorem draining_end_scan {within : Within} (hs : s.Serving within) (served : Bool)
    (hkept : s.handed ++ s.backlog = all) : Draining all (s.end_scan within (.Served served)) := by
  have hhanded := end_scan_handed s within (.Served served)
  rcases hs with rfl | ⟨rfl, hone⟩
  · cases served with
    | true => exact draining_resting .streams_head rfl rfl (.inl rfl) (hhanded ▸ hkept)
    | false => exact draining_resting (.sleeping true) rfl rfl (.inl rfl) (hhanded ▸ hkept)
  · refine draining_accepting (.inr ⟨rfl, hone⟩) (hone ▸ Nat.zero_lt_one) (fun j hj => absurd hj (Nat.not_lt_zero j)) ?_
    exact hhanded ▸ hkept

/-- The steps from a point to the next `accept`, while somebody waits. -/
def toll (s : SyncDaemon ι) : Nat :=
  match s.point with
  | .idle => 0
  | .accepting _ i => s.listeners.length - i
  | .next_head _ => s.listeners.length + 1
  | .streams_head | .sleeping _ => s.listeners.length + 2
  | .logging _ _ _ => s.listeners.length + 3
  | .handling _ _ _ => s.listeners.length + 4
  | .accepted _ _ _ => s.listeners.length + 5

/-- A bound on the steps until the last of the backlog is handed on. -/
def potential (s : SyncDaemon ι) : Nat :=
  if s.backlog = [] then s.onTheWay.length else s.backlog.length * (s.listeners.length + 7) + s.toll

/-- A step that takes nobody and leaves nothing on its way. -/
theorem potential_drops (hrows : t.listeners = s.listeners) (hway : t.onTheWay = [])
    (htoll : s.backlog ≠ [] → t.toll < s.toll) : potential t ≤ potential s - 1 := by
  have hback : t.backlog = s.backlog := by rw [backlog, backlog, hrows]
  unfold potential
  rw [hback, hrows]
  by_cases hb : s.backlog = []
  · rw [if_pos hb, if_pos hb, hway]
    exact Nat.zero_le _
  · rw [if_neg hb, if_neg hb]
    have := htoll hb
    omega

theorem backlog_nil (hall : ∀ (j : Nat) (row : BoundListener ι), s.listeners[j]? = some row → row.pending = []) : s.backlog = [] := by
  rw [backlog, backlogFrom_nil]
  intro row hrow
  obtain ⟨j, hj⟩ := List.getElem?_of_mem hrow
  exact hall j row hj

theorem end_scan_way {within : Within} (hs : s.Serving within) (served : Bool) :
    (s.end_scan within (.Served served)).onTheWay = [] := by
  rcases hs with rfl | ⟨rfl, -⟩
  · cases served <;> rfl
  · rfl

/-- A pass that served somebody is over within three steps of the next. -/
theorem end_scan_toll {within : Within} (hs : s.Serving within) :
    (s.end_scan within (.Served true)).toll ≤ s.listeners.length + 2 := by
  rcases hs with rfl | ⟨rfl, -⟩
  · exact Nat.le_refl _
  · exact Nat.le_add_right _ 2

theorem Draining.serving_at (hd : Draining all s) (within : Within) (h : s.point.within = some within) :
    s.Serving within := by
  obtain ⟨w, hw, hs⟩ := hd.serving
  rw [h] at hw
  cases hw
  exact hs

/-- The loop over the listeners starts, or goes on past one where nobody waits. -/
theorem scan_at_drains {i n : Nat} (hkept : s.handed ++ s.backlog = all)
    (hbefore : ∀ j < i, ∀ row, s.listeners[j]? = some row → row.pending = [])
    (htoll : s.listeners.length - i < n) :
    Draining all (s.scan_at (.next true) i) ∧ (s.scan_at (.next true) i).onTheWay = [] ∧
      (s.backlog ≠ [] → (s.scan_at (.next true) i).toll < n) := by
  unfold scan_at
  by_cases hlt : i < s.listeners.length
  · rw [if_pos hlt]
    exact ⟨draining_accepting (.inl rfl) hlt hbefore hkept, rfl, fun _ => htoll⟩
  · rw [if_neg hlt]
    refine ⟨draining_end_scan (.inl rfl) false hkept, rfl, fun hb => absurd (backlog_nil fun j row hrow => ?_) hb⟩
    obtain ⟨hj, -⟩ := List.getElem?_eq_some_iff.1 hrow
    exact hbefore j (by omega) row hrow

theorem Draining.kept_nothing_taken (hd : Draining all s) (hway : s.onTheWay = []) : s.handed ++ s.backlog = all := by
  have hkept := hd.kept
  rwa [hway, List.append_nil] at hkept

/-- `serve_streams` gets to a point outside the loop over the listeners. -/
theorem Draining.rests (hd : Draining all s) (hway : s.onTheWay = []) (point : ServePoint) {within : Within}
    (hpoint : point.resting = true) (hwithin : point.within = some within) (hs : s.Serving within)
    (htoll : toll { s with point := point } < s.toll) :
    Draining all { s with point := point } ∧ potential { s with point := point } ≤ potential s - 1 :=
  ⟨draining_resting point hpoint hwithin hs (hd.kept_nothing_taken hway),
    potential_drops rfl (onTheWay_resting hpoint) fun _ => htoll⟩

/-- A request is through, with or without an error. -/
theorem Draining.request_over (hd : Draining all s) (hway : s.onTheWay = []) {within : Within} (hs : s.Serving within)
    (htoll : s.listeners.length + 2 < s.toll) :
    Draining all (s.end_scan within (.Served true)) ∧ potential (s.end_scan within (.Served true)) ≤ potential s - 1 :=
  ⟨draining_end_scan hs true (hd.kept_nothing_taken hway),
    potential_drops (end_scan_listeners s _ _) (end_scan_way hs true) fun _ => Nat.lt_of_le_of_lt (end_scan_toll hs) htoll⟩

theorem Draining.next_on (hd : Draining all s) {outer : Bool} (hpt : s.point = .next_head outer) :
    Draining all (s.scan_at (.next outer) 0) ∧ potential (s.scan_at (.next outer) 0) ≤ potential s - 1 := by
  have hkept := hd.kept_nothing_taken (onTheWay_resting (by rw [hpt]; rfl))
  obtain rfl : outer = true := by
    rcases hd.serving_at (.next outer) (by rw [hpt]; rfl) with hnext | ⟨hblocking, -⟩
    · cases hnext
      rfl
    · cases hblocking
  have hfirst : s.listeners.length - 0 < s.toll := by
    simp only [toll, hpt]
    omega
  obtain ⟨hdrains, hway, htoll⟩ := scan_at_drains hkept (fun j hj => absurd hj (Nat.not_lt_zero j)) hfirst
  exact ⟨hdrains, potential_drops (scan_at_listeners s _ _) hway htoll⟩

/-- Nobody waits at the listener that would block, nor at those before it. -/
theorem Draining.would_block (hd : Draining all s) {within : Within} {i : Nat} (hpt : s.point = .accepting within i)
    (hblock : ∀ incoming, within ≠ .blocking incoming)
    (hnobody : ∀ row, s.listeners[i]? = some row → row.pending = []) :
    Draining all ((s.reported .would_block).scan_at within (i + 1)) ∧
      potential ((s.reported .would_block).scan_at within (i + 1)) ≤ potential s - 1 := by
  have hkept := hd.kept_nothing_taken (by simp only [onTheWay, hpt])
  have hs := hd.serving_at within (by rw [hpt]; rfl)
  obtain rfl : within = .next true := hs.elim id fun hblocking => absurd hblocking.1 (hblock true)
  have hi := hd.inside _ i (.inl hpt)
  have hbefore : ∀ j < i + 1, ∀ row, s.listeners[j]? = some row → row.pending = [] := by
    intro j hj row hrow
    rcases Nat.lt_succ_iff_lt_or_eq.1 hj with hlt | rfl
    · exact hd.before _ i hpt j hlt row hrow
    · exact hnobody row hrow
  have hpast : s.listeners.length - (i + 1) < s.toll := by
    simp only [toll, hpt]
    omega
  obtain ⟨hdrains, hway, htoll⟩ := scan_at_drains (s := s.reported .would_block) hkept hbefore hpast
  exact ⟨hdrains, potential_drops (scan_at_listeners _ _ _) hway htoll⟩

/-- The first of the backlog is taken. -/
theorem Draining.accept (hd : Draining all s) {within : Within} {i : Nat} {row : BoundListener ι} {stream : Stream}
    {rest : List Stream} (hpt : s.point = .accepting within i) (hrow : s.listeners[i]? = some row)
    (hpend : row.pending = stream :: rest)
    (ht : t = { s.reported (.accepted stream) with
      listeners := s.listeners.set i { row with pending := rest }
      point := .accepted within i stream }) :
    Draining all t ∧ potential t ≤ potential s - 1 := by
  have hkept := hd.kept_nothing_taken (by simp only [onTheWay, hpt])
  have hs := hd.serving_at within (by rw [hpt]; rfl)
  have hi := hd.inside within i (.inl hpt)
  have htakes : s.backlog = ⟨i, row.listener, stream⟩ ::
      backlogFrom 0 (s.listeners.set i { row with pending := rest }) := by
    have hfirst := backlogFrom_takes 0 hrow hpend (hd.before within i hpt)
    rwa [Nat.zero_add] at hfirst
  have hnew : t.onTheWay = [⟨i, row.listener, stream⟩] := by
    subst ht
    simp only [onTheWay, List.getElem?_set_self hi]
    rfl
  subst ht
  refine ⟨⟨⟨within, rfl, ?_⟩, ?_, ?_, ?_⟩, ?_⟩
  · simpa only [Serving, List.length_set] using hs
  · rintro w k (hpt' | ⟨stream', hpt'⟩)
    · cases hpt'
    · cases hpt'
      simpa only [List.length_set] using hi
  · intro w k hpt'
    cases hpt'
  · rw [hnew, ← hkept, htakes, List.append_assoc]
    rfl
  · have hsome : s.backlog ≠ [] := by rw [htakes]; exact List.cons_ne_nil _ _
    have hlen : s.backlog.length = (backlogFrom 0 (s.listeners.set i { row with pending := rest })).length + 1 := by
      rw [htakes, List.length_cons]
    unfold potential
    rw [if_neg hsome, hnew, hlen]
    simp only [toll, backlog, hpt, List.length_set, Nat.add_mul, Nat.one_mul]
    split
    · rw [List.length_singleton]
      omega
    · omega

theorem Draining.handle_stream (hd : Draining all s) {within : Within} {i : Nat} {row : BoundListener ι} {stream : Stream}
    (hpt : s.point = .accepted within i stream) (hrow : s.listeners[i]? = some row)
    (ht : t = { s with
      point := .handling within i stream
      scan := { s.scan with handed := s.scan.handed ++ [⟨i, row.listener, stream⟩] } }) :
    Draining all t ∧ potential t ≤ potential s - 1 := by
  have hs := hd.serving_at within (by rw [hpt]; rfl)
  have hkept := hd.kept
  rw [show s.onTheWay = [⟨i, row.listener, stream⟩] by simp only [onTheWay, hpt, hrow]; rfl] at hkept
  let u : SyncDaemon ι :=
    { s with scan := { s.scan with handed := s.scan.handed ++ [⟨i, row.listener, stream⟩] } }
  have hnow : u.handed ++ u.backlog = all := by
    rw [← hkept, show u.handed = s.handed ++ [⟨i, row.listener, stream⟩] from (List.append_assoc _ _ _).symm]
    rfl
  subst ht
  refine ⟨draining_resting (s := u) (.handling within i stream) rfl rfl hs hnow, potential_drops rfl rfl fun _ => ?_⟩
  simp only [toll, hpt]
  omega

theorem drains_step {event : SyncEvent} (hd : Draining all s) (ho : Ordinary s event) (h : s.step event = some t) :
    Draining all t ∧ potential t ≤ potential s - 1 := by
  cases step_moves h with
  -- what an ordinary run does not do
  | connect => exact absurd ho id
  | tries => exact absurd ho id
  | calls => exact absurd ho id
  | accept_fails => exact absurd ho id
  | streams_done => cases ho
  | next_back => cases ho
  | next_done => cases ho
  | panics => exact absurd rfl ho
  | unlogged => cases ho
  -- the loops around the listeners
  | streams_on hpt =>
    refine hd.rests (onTheWay_resting (by rw [hpt]; rfl)) (.next_head true) rfl rfl (.inl rfl) ?_
    simp only [toll, hpt]
    omega
  | wakes outer hpt =>
    have hs := hd.serving_at (.next outer) (by rw [hpt]; rfl)
    refine hd.rests (onTheWay_resting (by rw [hpt]; rfl)) (.next_head outer) rfl rfl hs ?_
    simp only [toll, hpt]
    omega
  | next_on outer hpt => exact hd.next_on hpt
  | would_block within i hpt hblock => exact hd.would_block hpt hblock fun row hrow => ho within i row hpt hrow
  -- one connection
  | accept within i row stream rest hpt hrow hpend => exact hd.accept hpt hrow hpend rfl
  | handle_stream within i stream row hpt hrow => exact hd.handle_stream hpt hrow rfl
  | request_error within i stream hpt =>
    have hs := hd.serving_at within (by rw [hpt]; rfl)
    refine hd.rests (onTheWay_resting (by rw [hpt]; rfl)) (.logging within i stream) rfl rfl hs ?_
    simp only [toll, hpt]
    omega
  | handled within i stream hpt =>
    have hs := hd.serving_at within (by rw [hpt]; rfl)
    refine hd.request_over (onTheWay_resting (by rw [hpt]; rfl)) hs ?_
    simp only [toll, hpt]
    omega
  | logged within i stream hpt =>
    have hs := hd.serving_at within (by rw [hpt]; rfl)
    refine hd.request_over (onTheWay_resting (by rw [hpt]; rfl)) hs ?_
    simp only [toll, hpt]
    omega

/-- The daemon goes on, unless it waits in the one blocking `accept` for nobody. -/
theorem goes_on (hd : Draining all s) :
    (∃ event, s.Ordinary event ∧ (s.step event).isSome = true) ∨ s.backlog = [] ∧ s.onTheWay = [] := by
  obtain ⟨within, hwithin, hs⟩ := hd.serving
  cases hpt : s.point with
  | idle =>
    rw [hpt] at hwithin
    cases hwithin
  | streams_head => exact .inl ⟨.should_continue true, rfl, by simp [step, hpt]⟩
  | next_head outer => exact .inl ⟨.should_continue true, rfl, by simp [step, hpt]⟩
  | sleeping outer => exact .inl ⟨.wakes, trivial, by simp [step, hpt]⟩
  | handling w i stream =>
    have hok : s.Ordinary (.handler_returns .Ok) := fun h => by cases h
    exact .inl ⟨_, hok, by simp [step, hpt]⟩
  | logging w i stream => exact .inl ⟨.log true, rfl, by simp [step, hpt]⟩
  | accepted w i stream =>
    have hrow := List.getElem?_eq_getElem (hd.inside w i (.inr ⟨stream, hpt⟩))
    exact .inl ⟨.handle_stream, trivial, by simp [step, hpt, hrow]⟩
  | accepting w i =>
    obtain rfl : w = within := by
      rw [hpt] at hwithin
      exact Option.some.inj hwithin
    have hi := hd.inside w i (.inl hpt)
    have hrow := List.getElem?_eq_getElem hi
    cases hpend : s.listeners[i].pending with
    | cons stream rest => exact .inl ⟨.accept, trivial, by simp [step, hpt, hrow, hpend]⟩
    | nil =>
      rcases hs with rfl | ⟨rfl, hone⟩
      · refine .inl ⟨.would_block, fun w' i' row hpt' hrow' => ?_, by simp [step, hpt]⟩
        rw [hpt] at hpt'
        cases hpt'
        rw [hrow] at hrow'
        cases hrow'
        exact hpend
      · refine .inr ⟨backlog_nil fun j row hrow' => ?_, by simp only [onTheWay, hpt]⟩
        obtain ⟨hj, -⟩ := List.getElem?_eq_some_iff.1 hrow'
        obtain rfl : j = i := by omega
        rw [hrow] at hrow'
        cases hrow'
        exact hpend

end Drains

/-! ## Every client is served -/

/-- All that has come to any listener has been handed on. -/
def HandedAll (s : SyncDaemon ι) : Prop :=
  ∀ (j : Nat) (row : BoundListener ι), s.listeners[j]? = some row → row.arrived = s.sent j

theorem handedAll {ids : List ι} {all : List (Handed ι)} {s : SyncDaemon ι} (hi : Inv ids s) (hd : Draining all s)
    (hback : s.backlog = []) (hway : s.onTheWay = []) : s.HandedAll := by
  intro j row hrow
  have hflight : s.inFlight j = [] := by
    unfold inFlight
    split
    · rename_i w i stream hpt
      simp [onTheWay, hpt, List.getElem?_eq_getElem (hd.inside w i (.inr ⟨stream, hpt⟩))] at hway
    · rfl
  have hpend := (backlogFrom_nil 0 s.listeners).1 hback row (List.mem_of_getElem? hrow)
  rw [hi.queues j row hrow, hflight, hpend, List.append_nil, List.append_nil]

/-- Where `serve_streams` begins. -/
theorem call_serve_streams {ids : List ι} {s t : SyncDaemon ι} (hi : Inv ids s)
    (hone : s.kind = .Single → ids.length = 1) (h : s.step (.call .serve_streams) = some t) :
    Draining (s.handed ++ s.backlog) t ∧ t.handed = s.handed ∧ t.listeners = s.listeners ∧
      t.onTheWay = [] ∧ t.toll ≤ ids.length + 2 := by
  have hlength : s.listeners.length = ids.length := by rw [← hi.named, List.length_map]
  simp only [step] at h
  split at h
  · rename_i hcall
    cases hcall
  · rename_i hcall
    cases hcall
  · cases h
    exact ⟨draining_resting .streams_head rfl rfl (.inl rfl) rfl, rfl, rfl, rfl, Nat.le_of_eq (by rw [← hlength]; rfl)⟩
  · rename_i hcall
    cases hcall
  · rename_i hkind _
    cases h
    have hlen : s.listeners.length = 1 := hlength.trans (hone hkind)
    refine ⟨draining_accepting (.inr ⟨rfl, hlen⟩) (hlen ▸ Nat.zero_lt_one) (fun j hj => absurd hj (Nat.not_lt_zero j)) rfl,
      rfl, rfl, rfl, ?_⟩
    rw [← hlength]
    exact Nat.le_add_right _ 2
  · cases h

/-- Once `serve_streams` has been called, and while `should_continue` answers
true, nobody else connects and nothing fails but requests, the daemon hands on what waits listener by listener,
and in its order at each. It is never stuck before everybody has been handed on,
and everybody has been after a bounded number of steps. -/
theorem serve_streams_drains (kind : SyncKind) (ids : List ι) (hone : kind = .Single → ids.length = 1)
    {events : List SyncEvent} {s₀ s : SyncDaemon ι} (h₀ : exec step (bound kind ids) events = some s₀)
    (hcall : s₀.step (.call .serve_streams) = some s) {more : List SyncEvent} {t : SyncDaemon ι}
    (hc : Along step Ordinary s more) (h : exec step s more = some t) :
    t.handed ++ t.onTheWay ++ t.backlog = s₀.handed ++ s₀.backlog ∧
    ((∃ event, t.Ordinary event ∧ (t.step event).isSome = true) ∨ t.handed = s₀.handed ++ s₀.backlog ∧ t.HandedAll) ∧
    ((s₀.backlog.length + 1) * (ids.length + 7) ≤ more.length → t.handed = s₀.handed ++ s₀.backlog ∧ t.HandedAll) := by
  have hi₀ : Inv ids s₀ := exec_invariant (Inv ids) (fun _ _ _ hi hstep => inv_step hi hstep) h₀ (inv_bound kind ids)
  have hkind : s₀.kind = kind :=
    exec_invariant (fun u : SyncDaemon ι => u.kind = kind) (fun _ _ _ hu hstep => (step_kind hstep).trans hu) h₀ rfl
  obtain ⟨hd₀, hhanded, hrows, hway, htoll⟩ := call_serve_streams hi₀ (hkind ▸ hone) hcall
  have hd : Draining (s₀.handed ++ s₀.backlog) t := exec_invariant_along (Draining (s₀.handed ++ s₀.backlog))
    (fun _ _ _ hu hguard hstep => (drains_step hu hguard hstep).1) hc h hd₀
  have hi : Inv ids t :=
    exec_invariant (Inv ids) (fun _ _ _ hi hstep => inv_step hi hstep) h (inv_step hi₀ hcall)
  have hdrained : t.backlog = [] → t.onTheWay = [] → t.handed = s₀.handed ++ s₀.backlog ∧ t.HandedAll := by
    intro hback hflight
    refine ⟨?_, handedAll hi hd hback hflight⟩
    rw [← hd.kept, hback, hflight, List.append_nil, List.append_nil]
  refine ⟨hd.kept, ?_, fun hlong => ?_⟩
  · rcases goes_on hd with hgo | ⟨hback, hflight⟩
    · exact .inl hgo
    · exact .inr (hdrained hback hflight)
  · have hback : s.backlog = s₀.backlog := by rw [backlog, hrows, backlog]
    have hlength : s.listeners.length = ids.length := by rw [hrows, ← hi₀.named, List.length_map]
    have hpotential : potential s ≤ (s₀.backlog.length + 1) * (ids.length + 7) := by
      unfold potential
      rw [hback, hway, hlength, Nat.add_mul, Nat.one_mul]
      split
      · exact Nat.zero_le _
      · omega
    have hused := exec_potential_le potential (Draining (s₀.handed ++ s₀.backlog))
      (fun _ _ _ hu hguard hstep => (drains_step hu hguard hstep).1)
      (fun _ _ _ hu hguard hstep => (drains_step hu hguard hstep).2) hc h hd₀
    have hzero : potential t = 0 := by omega
    unfold potential at hzero
    by_cases hb : t.backlog = []
    · rw [if_pos hb] at hzero
      exact hdrained hb (List.length_eq_zero_iff.1 hzero)
    · rw [if_neg hb] at hzero
      have hpos := List.length_pos_iff.2 hb
      have hcost := Nat.mul_le_mul_right (t.listeners.length + 7) hpos
      omega

/-- A stream waits at either listener; the second's came first. -/
def twoWaiting : SyncDaemon Bool :=
  ⟨.Multi, [⟨true, [8], [8]⟩, ⟨false, [7], [7]⟩], .idle, noScan, [], []⟩

/-- The passes that serve them. -/
def twoPasses : List SyncEvent :=
  [.should_continue true, .should_continue true, .accept, .handle_stream, .handler_returns .Err, .log true,
    .should_continue true, .should_continue true] ++ [.would_block, .accept, .handle_stream]

theorem serve_streams_drains_twoPasses : ∃ t, exec step { twoWaiting with point := .streams_head } twoPasses = some t ∧
    t.handed = [⟨0, true, 8⟩, ⟨1, false, 7⟩] ∧
    t.handed ++ t.onTheWay ++ t.backlog = twoWaiting.handed ++ twoWaiting.backlog := by
  have h₀ : exec step (bound .Multi [true, false]) [.connect 1 7, .connect 0 8] = some twoWaiting := rfl
  have hfront : ∃ u, exec step { twoWaiting with point := .streams_head } [.should_continue true, .should_continue true,
      .accept, .handle_stream, .handler_returns .Err, .log true, .should_continue true, .should_continue true] = some u ∧
      u.point = .accepting (.next true) 0 ∧ u.listeners = [⟨true, [], [8]⟩, ⟨false, [7], [7]⟩] := ⟨_, rfl, rfl, rfl⟩
  obtain ⟨u, hu, hpt, hrows⟩ := hfront
  have hc : Along step Ordinary { twoWaiting with point := .streams_head } twoPasses := by
    refine (along_append hu).2 ⟨along_of_forall (fun event hm s => ?_) _, ?_,
      fun v _ => along_of_forall (fun event hm s => ?_) v⟩
    · simp only [List.mem_cons, List.not_mem_nil, or_false] at hm
      rcases hm with rfl | rfl | rfl | rfl | rfl | rfl | rfl | rfl <;> simp [Ordinary]
    · intro within i row hpt' hrow
      rw [hpt] at hpt'
      cases hpt'
      rw [hrows] at hrow
      cases hrow
      rfl
    · simp only [List.mem_cons, List.not_mem_nil, or_false] at hm
      rcases hm with rfl | rfl <;> trivial
  have hrun : ∃ t, exec step { twoWaiting with point := .streams_head } twoPasses = some t ∧
      t.handed = [⟨0, true, 8⟩, ⟨1, false, 7⟩] := ⟨_, rfl, rfl⟩
  obtain ⟨t, ht, hhanded⟩ := hrun
  exact ⟨t, ht, hhanded, (serve_streams_drains .Multi [true, false] (by simp) h₀ rfl hc ht).1⟩

end SyncDaemon

end TriadRuntime

/-
The life of the connection semaphore, `wifi.c`: `wifi_sta_do_connect`, waiting
or not, `wifi_sta_do_disconnect` and `wifi_shutdown`, called one after the
other in any order, with any events between their statements.

Beside the tasks stands a record of the semaphores created and deleted, which
no statement reads. The code keeps nothing of the kind: a deleted semaphore's
handle stays where it is, and a new one goes on top of the old. So the order
of the calls decides (`lawful_iff`), and `lawful_of_calls` says which orders
are safe whatever the events.
-/
import EspOta.Wifi.ConnectRuns

namespace EspOta.Wifi

open Lib

def espErrWifiNotInit : EspErr := 0x3001

/-- Where a call of `wifi_sta_do_disconnect` is, or of `wifi_shutdown`, which makes one and goes on. -/
inductive Closing
  | entered
  | unwatched
  | unheard
  | unregistered
  | deleted
  | disconnected
  | stopped
  | deinitialized
  deriving DecidableEq, Repr

/-- What was last done about the semaphore: none created, or a creation failed; created; deleted. -/
inductive Last | absent | created | deleted
  deriving DecidableEq, Repr

/-- The semaphores so far. `handle` says which of them `s_semph_get_ip_addrs` points to, if it is not null. -/
structure Record where
  handle : Option Nat
  next : Nat
  deleted : List Nat
  last : Last
  deriving DecidableEq, Repr

namespace Record

/-- `xSemaphoreCreateBinary`. -/
def create (r : Record) (ok : Bool) : Record :=
  if ok then { r with handle := some r.next, next := r.next + 1, last := .created }
  else { r with handle := none, last := .absent }

/-- `vSemaphoreDelete`. -/
def delete (r : Record) : Record := { r with deleted := r.handle.toList ++ r.deleted, last := .deleted }

/-- The handle is that of a semaphore deleted. -/
def dangling (r : Record) : Bool := r.handle.any (r.deleted.contains ·)

/-- The handle is that of a semaphore not deleted. -/
def live (r : Record) : Bool := r.handle.any (!r.deleted.contains ·)

end Record

/-- The tasks, the call that disconnects or shuts down, and the record. -/
structure Life where
  sta : Sta
  wait : Bool
  closing : Option Closing
  shuttingDown : Bool
  record : Record
  deriving DecidableEq, Repr

inductive LifeAction
  /-- `wifi_sta_do_connect`, `wifi_sta_do_disconnect` or `wifi_shutdown` is called. -/
  | connect (wait : Bool)
  | disconnect
  | shutdown
  | sta (a : WifiAction)
  /-- The next statement of the call that disconnects or shuts down; `err` is what it is answered. -/
  | close (err : EspErr)
  deriving DecidableEq, Repr

namespace Life

/-- Nothing called yet. -/
def boot : Life := ⟨⟨0, none, false, false, .idle, .returned espOk, []⟩, false, none, false,
  ⟨none, 0, [], .absent⟩⟩

/-- The last call has returned. -/
def free (w : Life) : Bool :=
  match w.closing, w.sta.caller with
  | none, .returned _ => true
  | _, _ => false

/-- `ESP_ERROR_CHECK`. -/
def check (w : Life) (err : EspErr) (w' : Life) : Life :=
  if err = espOk then w' else { w with sta := { w.sta with caller := .aborted } }

/-- `ESP_ERROR_CHECK(esp_event_handler_unregister(..))`, which waits for a handler at work. -/
def unregister? (w : Life) (err : EspErr) (w' : Life) : Option Life :=
  if w.sta.handler ≠ .idle then none else some (w.check err w')

/-- `wifi_sta_do_disconnect`; for `wifi_shutdown`, then `wifi_stop`. -/
def close? (w : Life) (err : EspErr) : Option Life :=
  match w.closing with
  | none => none
  | some .entered =>
    w.unregister? err { w with sta := { w.sta with onDisconnect := false }, closing := some .unwatched }
  | some .unwatched =>
    w.unregister? err { w with sta := { w.sta with onGotIp := false }, closing := some .unheard }
  | some .unheard => w.unregister? err { w with closing := some .unregistered }
  | some .unregistered =>
    some { w with
      record := if w.sta.semaphore.isSome then w.record.delete else w.record
      closing := some .deleted }
  | some .deleted =>
    if w.shuttingDown then some { w with closing := some .disconnected }
    else some { w with sta := { w.sta with caller := .returned err }, closing := none }
  | some .disconnected =>
    if err = espErrWifiNotInit then some { w with closing := none }
    else some (w.check err { w with closing := some .stopped })
  | some .stopped => some (w.check err { w with closing := some .deinitialized })
  | some .deinitialized => some (w.check err { w with closing := none })

/-- What an action of the tasks does to the record. -/
def recorded (r : Record) : WifiAction → Record
  | .caller (.createSemaphore ok) => r.create ok
  | _ => r

/-- A failed assertion is the end. -/
def step? (max : Int32) (w : Life) (a : LifeAction) : Option Life :=
  if w.sta.caller = .aborted then none
  else
    match a with
    | .connect wait => if w.free then some { w with sta := { w.sta with caller := .entered }, wait } else none
    | .disconnect => if w.free then some { w with closing := some .entered, shuttingDown := false } else none
    | .shutdown => if w.free then some { w with closing := some .entered, shuttingDown := true } else none
    | .sta a => (w.sta.step? max w.wait a).map fun s => { w with sta := s, record := recorded w.record a }
    | .close err => w.close? err

/-- An action that cannot happen in a state leaves it as it is. -/
def step (max : Int32) (w : Life) (a : LifeAction) : Life := (w.step? max a).getD w

/-! ## What is done with the semaphore -/

inductive Use | create | give | take | delete
  deriving DecidableEq, Repr

/-- What an action does with the semaphore, if there is one. -/
def use (w : Life) : LifeAction → Option Use
  | .sta (.handler _) => if w.sta.handler.gives then some .give else none
  | .sta (.caller (.createSemaphore _)) => some .create
  | .sta (.caller .takeSemaphore) => some .take
  | .close _ => if w.closing = some .unregistered then some .delete else none
  | _ => none

/-- What is given, taken or deleted has not been deleted, and what a new semaphore's handle goes on top of has. -/
def lawful (w : Life) : Use → Bool
  | .create => !w.record.live
  | .give | .take | .delete => !w.record.dangling

/-- A semaphore is created only when none has been since the last deletion; a handler comes to give one, and a
call to delete one, only when one has been, or a creation failed, or none was ever deleted. -/
def inOrder (w : Life) : Use → Bool
  | .create => w.record.last ≠ .created
  | .give | .delete => w.record.last ≠ .deleted
  | .take => true

def Lawful (max : Int32) (w : Life) (a : LifeAction) : Prop :=
  (w.step? max a).isSome → ∀ u ∈ w.use a, w.lawful u = true

def Ordered (max : Int32) (w : Life) (a : LifeAction) : Prop :=
  (w.step? max a).isSome → ∀ u ∈ w.use a, w.inOrder u = true

/-- Where the calls start: one that waits when no semaphore has been created since the last deletion, any other
when none has been deleted since the last creation. -/
def CallsInOrder (w : Life) : LifeAction → Prop
  | .connect wait => if wait then w.record.last ≠ .created else w.record.last ≠ .deleted
  | .disconnect | .shutdown => w.record.last ≠ .deleted
  | .sta _ | .close _ => True

instance (max : Int32) (w : Life) (a : LifeAction) : Decidable (Lawful max w a) :=
  inferInstanceAs (Decidable (_ → _))

instance (w : Life) (a : LifeAction) : Decidable (CallsInOrder w a) := by
  unfold CallsInOrder; split <;> infer_instance

end Life

/-! ## The record -/

/-- What was last done says which semaphore the handle is. -/
structure Record.Sound (r : Record) : Prop where
  fresh : ∀ n ∈ r.deleted, n < r.next
  handle : ∀ n ∈ r.handle, n < r.next
  absent : r.last = .absent ↔ r.handle = none
  dangling : r.dangling = true ↔ r.last = .deleted
  live : r.live = true ↔ r.last = .created

theorem Record.Sound.boot : Life.boot.record.Sound := by
  refine ⟨?_, ?_, ?_, ?_, ?_⟩ <;> decide

theorem Record.Sound.create {r : Record} (h : r.Sound) (ok : Bool) : (r.create ok).Sound := by
  cases ok with
  | false =>
    refine ⟨h.fresh, ?_, ?_, ?_, ?_⟩ <;> simp [Record.create, Record.dangling, Record.live]
  | true =>
    have hnew : r.next ∉ r.deleted := fun hmem => Nat.lt_irrefl _ (h.fresh _ hmem)
    refine ⟨?_, ?_, ?_, ?_, ?_⟩
    · intro n hn
      exact Nat.lt_succ_of_lt (h.fresh n hn)
    all_goals simp [Record.create, Record.dangling, Record.live, hnew]

theorem Record.Sound.delete {r : Record} (h : r.Sound) {n : Nat} (hn : r.handle = some n) : r.delete.Sound := by
  refine ⟨?_, h.handle, ?_, ?_, ?_⟩
  · intro m hm
    simp only [Record.delete, hn, Option.toList_some, List.cons_append, List.nil_append, List.mem_cons] at hm
    rcases hm with rfl | hm
    · exact h.handle m hn
    · exact h.fresh m hm
  all_goals simp [Record.delete, Record.dangling, Record.live, hn]

namespace Life

/-! ## What a step can be -/

/-- Everything a statement of a call that disconnects or shuts down can be. -/
inductive Closes (w : Life) : Life → Prop
  | unwatched : w.closing = some .entered → w.sta.handler = .idle →
      Closes w { w with sta := { w.sta with onDisconnect := false }, closing := some .unwatched }
  | unheard : w.closing = some .unwatched → w.sta.handler = .idle →
      Closes w { w with sta := { w.sta with onGotIp := false }, closing := some .unheard }
  | unregistered : w.closing = some .unheard → Closes w { w with closing := some .unregistered }
  | deleted : w.closing = some .unregistered → w.sta.semaphore.isSome = true →
      Closes w { w with record := w.record.delete, closing := some .deleted }
  | noSemaphore : w.closing = some .unregistered → w.sta.semaphore.isSome = false →
      Closes w { w with closing := some .deleted }
  | returned (err : EspErr) : w.closing = some .deleted →
      Closes w { w with sta := { w.sta with caller := .returned err }, closing := none }
  /-- `wifi_stop`. -/
  | stops (c : Option Closing) : w.closing ≠ none →
      c ∈ [none, some .disconnected, some .stopped, some .deinitialized] → Closes w { w with closing := c }
  /-- A failing `ESP_ERROR_CHECK`. -/
  | aborted : w.closing ≠ none → Closes w { w with sta := { w.sta with caller := .aborted } }

theorem closing_ne_none {w : Life} {c : Closing} (hc : w.closing = some c) : w.closing ≠ none :=
  hc ▸ Option.some_ne_none c

theorem check_closes {w w' : Life} (err : EspErr) (hw : w.closing ≠ none) (h : w.Closes w') :
    w.Closes (w.check err w') := by
  unfold check
  split
  · exact h
  · exact .aborted hw

theorem unregister_closes {w w' w'' : Life} {err : EspErr} (hw : w.closing ≠ none)
    (h : w.sta.handler = .idle → w.Closes w') (hs : w.unregister? err w' = some w'') : w.Closes w'' := by
  unfold unregister? at hs
  split at hs
  · cases hs
  · cases hs
    exact check_closes err hw (h (Decidable.not_not.mp ‹_›))

theorem closes {w w' : Life} {err : EspErr} (h : w.close? err = some w') : w.Closes w' := by
  unfold close? at h
  split at h
  · cases h
  · rename_i hc
    exact unregister_closes (closing_ne_none hc) (.unwatched hc) h
  · rename_i hc
    exact unregister_closes (closing_ne_none hc) (.unheard hc) h
  · rename_i hc
    exact unregister_closes (closing_ne_none hc) (fun _ => .unregistered hc) h
  · rename_i hc
    cases h
    split
    · exact .deleted hc ‹_›
    · exact .noSemaphore hc (eq_false_of_ne_true ‹_›)
  · rename_i hc
    split at h
    · cases h; exact .stops _ (closing_ne_none hc) (by decide)
    · cases h; exact .returned err hc
  · rename_i hc
    have hne := closing_ne_none hc
    split at h
    · cases h; exact .stops _ hne (by decide)
    · cases h; exact check_closes err hne (.stops _ hne (by decide))
  · rename_i hc
    have hne := closing_ne_none hc
    cases h; exact check_closes err hne (.stops _ hne (by decide))
  · rename_i hc
    have hne := closing_ne_none hc
    cases h; exact check_closes err hne (.stops _ hne (by decide))

/-- Everything a step can be. -/
inductive Steps (max : Int32) (w : Life) : LifeAction → Life → Prop
  | connect (wait : Bool) : w.free = true →
      Steps max w (.connect wait) { w with sta := { w.sta with caller := .entered }, wait }
  | close (a : LifeAction) (shuttingDown : Bool) : a = .disconnect ∨ a = .shutdown → w.free = true →
      Steps max w a { w with closing := some .entered, shuttingDown }
  | sees (a : WifiAction) (s : Sta) : w.sta.Sees a s → Steps max w (.sta a) { w with sta := s }
  | handles (err : EspErr) (s : Sta) : w.sta.Handles max err s →
      Steps max w (.sta (.handler err)) { w with sta := s }
  | calls (statement : Statement) (s : Sta) : w.sta.Calls max w.wait statement s →
      Steps max w (.sta (.caller statement)) { w with sta := s, record := recorded w.record (.caller statement) }
  | closes (err : EspErr) (w' : Life) : w.Closes w' → Steps max w (.close err) w'

theorem steps {max : Int32} {w w' : Life} {a : LifeAction} (h : w.step? max a = some w') :
    w.sta.caller ≠ .aborted ∧ w.Steps max a w' := by
  unfold step? at h
  split at h
  · cases h
  · refine ⟨‹_›, ?_⟩
    cases a with
    | connect wait =>
      dsimp only at h
      split at h
      · cases h; exact .connect wait ‹_›
      · cases h
    | disconnect =>
      dsimp only at h
      split at h
      · cases h; exact .close _ false (.inl rfl) ‹_›
      · cases h
    | shutdown =>
      dsimp only at h
      split at h
      · cases h; exact .close _ true (.inr rfl) ‹_›
      · cases h
    | sta a =>
      obtain ⟨s, hs, rfl⟩ := Option.map_eq_some_iff.mp h
      cases Sta.acts hs with
      | sees _ hsees =>
        cases hsees with
        | unseen _ hu =>
          rcases hu with ⟨rfl, hreg⟩ | ⟨desc, rfl, hreg⟩
          · exact .sees _ _ (.unseen _ (.inl ⟨rfl, hreg⟩))
          · exact .sees _ _ (.unseen _ (.inr ⟨desc, rfl, hreg⟩))
        | counted hi hreg => exact .sees _ _ (.counted hi hreg)
        | reset desc hi hreg => exact .sees _ _ (.reset desc hi hreg)
      | handles err hh => exact .handles err s hh
      | calls statement hc => exact .calls statement s hc
    | close err => exact .closes err w' (closes h)

/-! ## What the handle is -/

/-- Between the creation of its semaphore and its wait, for a call that waits. -/
def Awaits (w : Life) : Prop :=
  w.sta.caller = .created ∨ w.sta.caller = .waiting ∨
    w.wait = true ∧ w.sta.caller ∈ [.cleared, .watching, .registered, .configured]

instance (w : Life) : Decidable w.Awaits := inferInstanceAs (Decidable (_ ∨ _ ∨ _))

/-- The call of `wifi_sta_do_connect` is over. -/
def Over (w : Life) : Prop := w.sta.caller = .aborted ∨ ∃ err, w.sta.caller = .returned err

/-- The static variable is the handle of the record, and a call that waits has created the last semaphore. -/
structure Tied (w : Life) : Prop where
  sound : w.record.Sound
  null : w.record.handle.isSome = w.sta.semaphore.isSome
  awaits : w.Awaits → w.record.last = .created
  ended : w.closing ≠ none → w.Over

theorem Tied.boot : Tied boot := by
  refine ⟨Record.Sound.boot, rfl, ?_, ?_⟩
  · intro h
    exact absurd h (by decide)
  · intro h
    exact absurd rfl h

theorem Over.not_awaits {w : Life} (h : w.Over) : ¬ w.Awaits := by
  rcases h with h | ⟨err, h⟩ <;> simp [Awaits, h]

theorem free_iff {w : Life} : w.free = true ↔ w.closing = none ∧ ∃ err, w.sta.caller = .returned err := by
  unfold free
  split
  · simp_all
  · rename_i hne
    simp only [Bool.false_eq_true, false_iff]
    intro ⟨hc, err, hr⟩
    exact hne err hc hr

section
variable {w : Life} (h : w.Tied)
include h

/-- A step that leaves the record as it is. -/
theorem Tied.keep {w' : Life} (hrecord : w'.record = w.record)
    (hsem : w'.sta.semaphore.isSome = w.sta.semaphore.isSome) (hawaits : w'.Awaits → w.Awaits)
    (hover : w'.closing ≠ none → w'.Over) : w'.Tied where
  sound := hrecord ▸ h.sound
  null := by rw [hrecord, hsem]; exact h.null
  awaits ha := by rw [hrecord]; exact h.awaits (hawaits ha)
  ended := hover

theorem Tied.sees {a : WifiAction} {s : Sta} (hs : w.sta.Sees a s) : Tied { w with sta := s } := by
  cases hs with
  | unseen => exact h
  | counted | reset => exact h.keep rfl rfl id h.ended

theorem Tied.handles {max : Int32} {err : EspErr} {s : Sta} (hs : w.sta.Handles max err s) :
    Tied { w with sta := s } := by
  cases hs with
  | exceeded | reconnected | gotOther => exact h.keep rfl rfl id h.ended
  | aborted => exact h.keep rfl rfl (absurd · (Over.not_awaits (.inl rfl))) fun _ => .inl rfl
  | gaveUp | gotOurs => exact h.keep rfl Option.isSome_map id h.ended

theorem Tied.not_closing {c : Caller} (hc : w.sta.caller = c)
    (hover : c ≠ .aborted ∧ ∀ err, c ≠ .returned err) : w.closing = none := by
  by_contra hne
  rcases h.ended hne with ha | ⟨err, hr⟩
  · exact hover.1 (hc ▸ ha)
  · exact hover.2 err (hc ▸ hr)

theorem Tied.calls {max : Int32} {statement : Statement} {s : Sta} (hs : w.sta.Calls max w.wait statement s) :
    Tied { w with sta := s, record := recorded w.record (.caller statement) } := by
  cases hs with
  | created hc =>
    refine ⟨h.sound.create true, rfl, fun _ => rfl, fun hne => ?_⟩
    exact absurd (h.not_closing hc (by simp)) hne
  | notCreated hc =>
    refine ⟨h.sound.create false, rfl, fun ha => ?_, fun _ => .inr ⟨_, rfl⟩⟩
    exact absurd ha (Over.not_awaits (.inr ⟨_, rfl⟩))
  | cleared hc =>
    refine h.keep rfl rfl ?_ fun hne => ?_
    · intro ha
      rcases hc with hc | ⟨-, hwait⟩
      · exact .inl hc
      · simp [Awaits, hwait] at ha
    · rcases hc with hc | ⟨hc, -⟩
      · exact absurd (h.not_closing hc (by simp)) hne
      · exact absurd (h.not_closing hc (by simp)) hne
  | watching hc | registered hc | configured hc =>
    refine h.keep rfl rfl ?_ fun hne => absurd (h.not_closing hc (by simp)) hne
    intro ha
    exact .inr (.inr ⟨by simpa [Awaits] using ha, by simp [hc]⟩)
  | connected hc =>
    refine h.keep rfl rfl ?_ fun hne => absurd (h.not_closing hc (by simp)) hne
    intro ha
    refine .inr (.inr ⟨?_, by simp [hc]⟩)
    by_contra hwait
    simp [Awaits, hwait] at ha
  | notConnected err hc =>
    exact h.keep rfl rfl (absurd · (Over.not_awaits (.inr ⟨_, rfl⟩))) fun _ => .inr ⟨_, rfl⟩
  | taken hc hgiven =>
    refine h.keep rfl (by rw [hgiven]; rfl) ?_ fun hne => absurd (h.not_closing hc (by simp)) hne
    intro ha
    simp [Awaits] at ha
  | read hc =>
    exact h.keep rfl rfl (absurd · (Over.not_awaits (.inr ⟨_, rfl⟩))) fun _ => .inr ⟨_, rfl⟩
  | aborted _ hchecked =>
    obtain ⟨err, rfl | rfl | rfl⟩ := hchecked
    all_goals exact h.keep rfl rfl (absurd · (Over.not_awaits (.inl rfl))) fun _ => .inl rfl

theorem Tied.over_of_closing {c : Closing} (hc : w.closing = some c) : w.Over := h.ended (closing_ne_none hc)

theorem Tied.closes {w' : Life} (hs : w.Closes w') : w'.Tied := by
  cases hs with
  | unwatched hc | unheard hc | unregistered hc | noSemaphore hc =>
    exact h.keep rfl rfl id fun _ => h.over_of_closing hc
  | deleted hc hsem =>
    have hover := h.over_of_closing hc
    obtain ⟨n, hn⟩ := Option.isSome_iff_exists.mp (h.null.trans hsem)
    exact ⟨h.sound.delete hn, h.null, fun ha => absurd ha hover.not_awaits, fun _ => hover⟩
  | returned err hc =>
    exact h.keep rfl rfl (absurd · (Over.not_awaits (.inr ⟨err, rfl⟩))) fun hne => absurd rfl hne
  | stops c hc => exact h.keep rfl rfl id fun _ => h.ended hc
  | aborted hc => exact h.keep rfl rfl (absurd · (Over.not_awaits (.inl rfl))) fun _ => .inl rfl

theorem Tied.steps {max : Int32} {a : LifeAction} {w' : Life} (hs : w.Steps max a w') : w'.Tied := by
  cases hs with
  | connect wait hfree =>
    refine h.keep rfl rfl (fun ha => ?_) fun hne => absurd (free_iff.mp hfree).1 hne
    simp [Awaits] at ha
  | close a shuttingDown _ hfree =>
    have hover : w.Over := .inr (free_iff.mp hfree).2
    exact h.keep rfl rfl id fun _ => hover
  | sees a s hs => exact h.sees hs
  | handles err s hs => exact h.handles hs
  | calls statement s hs => exact h.calls hs
  | closes err w' hs => exact h.closes hs

theorem Tied.step (max : Int32) (a : LifeAction) : (step max w a).Tied := by
  unfold Life.step
  cases hs : w.step? max a with
  | none => exact h
  | some w' => exact h.steps (Life.steps hs).2

/-! ## Lawful and in order -/

omit h in
theorem use_take {a : LifeAction} (hu : w.use a = some .take) : a = .sta (.caller .takeSemaphore) := by
  unfold use at hu
  split at hu
  · split at hu <;> cases hu
  · cases hu
  · rfl
  · split at hu <;> cases hu
  · cases hu

/-- A call that takes the semaphore has created the last one. -/
theorem Tied.created_of_take {max : Int32} (hs : (w.step? max (.sta (.caller .takeSemaphore))).isSome) :
    w.record.last = .created := by
  obtain ⟨w', hs⟩ := Option.isSome_iff_exists.mp hs
  cases (Life.steps hs).2 with
  | close _ _ ha => rcases ha with ha | ha <;> cases ha
  | sees _ s hsees =>
    cases hsees with
    | unseen _ hu => rcases hu with ⟨hu, -⟩ | ⟨desc, hu, -⟩ <;> cases hu
  | calls _ s hc =>
    cases hc with
    | taken hc => exact h.awaits (.inr (.inl hc))
    | aborted _ hchecked => obtain ⟨err, hu | hu | hu⟩ := hchecked <;> cases hu

theorem Tied.lawful_iff {max : Int32} {a : LifeAction} (hs : (w.step? max a).isSome) {u : Use}
    (hu : w.use a = some u) : w.lawful u = true ↔ w.inOrder u = true := by
  cases u with
  | create => simp [lawful, inOrder, ← h.sound.live]
  | give | delete => simp [lawful, inOrder, ← h.sound.dangling]
  | take =>
    obtain rfl := use_take hu
    have hlast := h.created_of_take hs
    have hkept : w.record.dangling = false := by
      rw [← Bool.not_eq_true, h.sound.dangling, hlast]
      decide
    simp [lawful, inOrder, hkept]

theorem Tied.lawful_iff_ordered (max : Int32) (a : LifeAction) : Lawful max w a ↔ Ordered max w a :=
  forall_congr' fun hs => forall₂_congr fun _ hu => h.lawful_iff hs hu

end

theorem lawful_iff (max : Int32) (es : List LifeAction) :
    Meets (step max) (Lawful max) boot es ↔ Meets (step max) (Ordered max) boot es :=
  meets_congr Tied (fun _ a h _ => h.step max a) (fun _ a h => h.lawful_iff_ordered max a) .boot es

/-! ## Calls in order -/

/-- While no call starts out of order. -/
structure Quiet (w : Life) : Prop where
  tied : w.Tied
  entered : w.sta.caller = .entered → if w.wait then w.record.last ≠ .created else w.record.last ≠ .deleted
  under : w.sta.caller ∈ [.created, .cleared, .watching, .registered, .configured, .waiting, .taken] →
    w.record.last ≠ .deleted
  closing : w.closing ∈ [some .entered, some .unwatched, some .unheard, some .unregistered] →
    w.record.last ≠ .deleted
  unwatched : w.closing ∈ [some .unwatched, some .unheard, some .unregistered] → w.sta.onDisconnect = false
  unheard : w.closing ∈ [some .unheard, some .unregistered] → w.sta.onGotIp = false ∧ w.sta.handler = .idle
  /-- After a deletion there is no handler. -/
  deleted : w.record.last = .deleted →
    w.sta.onDisconnect = false ∧ w.sta.onGotIp = false ∧ w.sta.handler = .idle

theorem Quiet.boot : Quiet boot := by
  refine ⟨Tied.boot, ?_, ?_, ?_, ?_, ?_, ?_⟩ <;> decide

theorem Over.caller {w : Life} (h : w.Over) : w.sta.caller ≠ .entered ∧
    w.sta.caller ∉ [.created, .cleared, .watching, .registered, .configured, .waiting, .taken] := by
  rcases h with h | ⟨err, h⟩ <;> simp [h]

/-- A state of no call that disconnects, in which the semaphore is not deleted. -/
theorem Quiet.of_last {w : Life} (htied : w.Tied) (hlast : w.record.last ≠ .deleted)
    (hclosing : w.closing = none) (hcaller : w.sta.caller ≠ .entered) : w.Quiet where
  tied := htied
  entered hc := absurd hc hcaller
  under _ := hlast
  closing hc := by simp [hclosing] at hc
  unwatched hc := by simp [hclosing] at hc
  unheard hc := by simp [hclosing] at hc
  deleted hd := absurd hd hlast

/-- No call of `wifi_sta_do_connect` is under way. -/
theorem Quiet.of_over {w : Life} (htied : w.Tied) (hover : w.Over)
    (hclosing : w.closing ∈ [some .entered, some .unwatched, some .unheard, some .unregistered] →
      w.record.last ≠ .deleted)
    (hunwatched : w.closing ∈ [some .unwatched, some .unheard, some .unregistered] →
      w.sta.onDisconnect = false)
    (hunheard : w.closing ∈ [some .unheard, some .unregistered] →
      w.sta.onGotIp = false ∧ w.sta.handler = .idle)
    (hdeleted : w.record.last = .deleted →
      w.sta.onDisconnect = false ∧ w.sta.onGotIp = false ∧ w.sta.handler = .idle) : w.Quiet where
  tied := htied
  entered hc := absurd hc hover.caller.1
  under hc := absurd hc hover.caller.2
  closing := hclosing
  unwatched := hunwatched
  unheard := hunheard
  deleted := hdeleted

section
variable {w : Life} (h : w.Quiet)
include h

theorem Quiet.sees {a : WifiAction} {s : Sta} (hs : w.sta.Sees a s) : Quiet { w with sta := s } := by
  have htied := h.tied.sees hs
  cases hs with
  | unseen => exact h
  | counted _ hreg =>
    refine ⟨htied, h.entered, h.under, h.closing, h.unwatched, ?_, ?_⟩
    · intro hc
      have hoff := h.unwatched (List.mem_cons_of_mem _ hc)
      rw [hreg] at hoff
      cases hoff
    · intro hd
      rw [(h.deleted hd).1] at hreg
      cases hreg
  | reset desc _ hreg =>
    refine ⟨htied, h.entered, h.under, h.closing, h.unwatched, ?_, ?_⟩
    · intro hc
      rw [(h.unheard hc).1] at hreg
      cases hreg
    · intro hd
      rw [(h.deleted hd).2.1] at hreg
      cases hreg

/-- A handler at work keeps a call from having unregistered both. -/
theorem Quiet.working (hh : w.sta.handler ≠ .idle) :
    w.closing ∉ [some .unheard, some .unregistered] ∧ w.record.last ≠ .deleted :=
  ⟨fun hc => hh (h.unheard hc).2, fun hd => hh (h.deleted hd).2.2⟩

theorem Quiet.handles {max : Int32} {err : EspErr} {s : Sta} (hs : w.sta.Handles max err s) :
    Quiet { w with sta := s } := by
  have htied := h.tied.handles hs
  have hh : w.sta.handler ≠ .idle := by
    cases hs with
    | exceeded hh | reconnected hh | aborted hh | gaveUp hh | gotOurs _ hh | gotOther _ hh =>
      rw [hh]; exact Handler.noConfusion
  obtain ⟨hclosing, hlast⟩ := h.working hh
  cases hs with
  | exceeded | reconnected | gaveUp | gotOurs | gotOther =>
    exact ⟨htied, h.entered, h.under, h.closing, h.unwatched, (absurd · hclosing), (absurd · hlast)⟩
  | aborted =>
    exact .of_over htied (.inl rfl) h.closing h.unwatched (absurd · hclosing) (absurd · hlast)

theorem Quiet.calls {max : Int32} {statement : Statement} {s : Sta} (hs : w.sta.Calls max w.wait statement s) :
    Quiet { w with sta := s, record := recorded w.record (.caller statement) } := by
  have htied := h.tied.calls hs
  cases hs with
  | created hc => exact .of_last htied nofun (h.tied.not_closing hc (by simp)) (by simp)
  | notCreated hc => exact .of_last htied nofun (h.tied.not_closing hc (by simp)) (by simp)
  | cleared hc =>
    rcases hc with hc | ⟨hc, hwait⟩
    · exact .of_last htied (h.under (by simp [hc])) (h.tied.not_closing hc (by simp)) (by simp)
    · have hlast := h.entered hc
      rw [hwait, if_neg (by decide)] at hlast
      exact .of_last htied hlast (h.tied.not_closing hc (by simp)) (by simp)
  | watching hc | registered hc | configured hc | notConnected _ hc | taken hc | read hc =>
    exact .of_last htied (h.under (by simp [hc])) (h.tied.not_closing hc (by simp)) (by simp)
  | connected hc =>
    refine .of_last htied (h.under (by simp [hc])) (h.tied.not_closing hc (by simp)) ?_
    cases w.wait <;> simp
  | aborted _ hchecked =>
    obtain ⟨err, rfl | rfl | rfl⟩ := hchecked
    all_goals exact .of_over htied (.inl rfl) h.closing h.unwatched h.unheard h.deleted

theorem Quiet.closes {w' : Life} (hs : w.Closes w') : w'.Quiet := by
  have htied := h.tied.closes hs
  cases hs with
  | unwatched hc =>
    have hlast := h.closing (by simp [hc])
    refine .of_over htied (h.tied.over_of_closing hc) (fun _ => hlast) (fun _ => rfl) ?_
      (absurd · hlast)
    simp
  | unheard hc hi =>
    have hlast := h.closing (by simp [hc])
    have hoff := h.unwatched (by simp [hc])
    exact .of_over htied (h.tied.over_of_closing hc) (fun _ => hlast) (fun _ => hoff)
      (fun _ => ⟨rfl, hi⟩) (absurd · hlast)
  | unregistered hc =>
    have hlast := h.closing (by simp [hc])
    have hoff := h.unwatched (by simp [hc])
    have hquiet := h.unheard (by simp [hc])
    exact .of_over htied (h.tied.over_of_closing hc) (fun _ => hlast) (fun _ => hoff)
      (fun _ => hquiet) (absurd · hlast)
  | deleted hc =>
    have hoff := h.unwatched (by simp [hc])
    have hquiet := h.unheard (by simp [hc])
    refine .of_over htied (h.tied.over_of_closing hc) ?_ ?_ ?_ (fun _ => ⟨hoff, hquiet⟩)
    all_goals simp
  | noSemaphore hc =>
    refine .of_over htied (h.tied.over_of_closing hc) ?_ ?_ ?_ h.deleted
    all_goals simp
  | returned err hc =>
    refine .of_over htied (.inr ⟨err, rfl⟩) ?_ ?_ ?_ h.deleted
    all_goals simp
  | stops c hc hmem =>
    have hover : w.Over := h.tied.ended hc
    simp only [List.mem_cons, List.not_mem_nil, or_false] at hmem
    refine .of_over htied hover ?_ ?_ ?_ h.deleted
    all_goals rcases hmem with rfl | rfl | rfl | rfl <;> simp
  | aborted => exact .of_over htied (.inl rfl) h.closing h.unwatched h.unheard h.deleted

theorem Quiet.steps {max : Int32} {a : LifeAction} (ha : CallsInOrder w a) {w' : Life} (hs : w.Steps max a w') :
    w'.Quiet := by
  have htied := h.tied.steps hs
  cases hs with
  | connect wait hfree =>
    have hopen := (free_iff.mp hfree).1
    refine ⟨htied, fun _ => ha, ?_, ?_, ?_, ?_, h.deleted⟩
    all_goals simp [hopen]
  | close a shuttingDown hclose hfree =>
    have hlast : w.record.last ≠ .deleted := by
      rcases hclose with rfl | rfl
      · exact ha
      · exact ha
    refine .of_over htied (.inr (free_iff.mp hfree).2) (fun _ => hlast) ?_ ?_ h.deleted
    all_goals simp
  | sees a s hs => exact h.sees hs
  | handles err s hs => exact h.handles hs
  | calls statement s hs => exact h.calls hs
  | closes err w' hs => exact h.closes hs

theorem Quiet.step {max : Int32} {a : LifeAction} (ha : CallsInOrder w a) : (step max w a).Quiet := by
  unfold Life.step
  cases hs : w.step? max a with
  | none => exact h
  | some w' => exact h.steps ha (Life.steps hs).2

/-- What is done with the semaphore is in order, as no call that could do otherwise has started. -/
theorem Quiet.ordered (max : Int32) (a : LifeAction) : Ordered max w a := by
  intro henabled u hu
  obtain ⟨w', hs⟩ := Option.isSome_iff_exists.mp henabled
  cases (Life.steps hs).2 with
  | connect => cases hu
  | close a _ hclose => rcases hclose with rfl | rfl <;> cases hu
  | sees a s hsees =>
    cases hsees with
    | unseen _ hunseen => rcases hunseen with ⟨rfl, -⟩ | ⟨desc, rfl, -⟩ <;> cases hu
    | counted | reset => cases hu
  | handles err s hhandles =>
    have hu : u ∈ if w.sta.handler.gives then some Use.give else none := hu
    split at hu
    · rename_i hgives
      obtain rfl := Option.some.inj hu
      have hh : w.sta.handler ≠ .idle := by
        intro hi
        rw [hi] at hgives
        cases hgives
      simpa [inOrder] using (h.working hh).2
    · cases hu
  | calls statement s hcalls =>
    cases hcalls with
    | created hc hwait | notCreated hc hwait =>
      obtain rfl := Option.some.inj hu
      have hlast := h.entered hc
      rw [if_pos hwait] at hlast
      simpa [inOrder] using hlast
    | taken =>
      obtain rfl := Option.some.inj hu
      rfl
    | cleared | watching | registered | configured | connected | notConnected | read => cases hu
    | aborted _ hchecked => obtain ⟨_, rfl | rfl | rfl⟩ := hchecked <;> cases hu
  | closes err w' hcloses =>
    have hu : u ∈ if w.closing = some .unregistered then some Use.delete else none := hu
    split at hu
    · rename_i hc
      obtain rfl := Option.some.inj hu
      simpa [inOrder] using h.closing (by simp [hc])
    · cases hu

end

/-- Calls in order are lawful, whatever the events, the answers and the failures. -/
theorem lawful_of_calls (max : Int32) (es : List LifeAction) (h : Meets (step max) CallsInOrder boot es) :
    Meets (step max) (Lawful max) boot es := by
  rw [lawful_iff]
  exact h.imp Quiet (fun _ _ hq ha => hq.step ha) (fun _ a hq _ => hq.ordered max a) .boot

/-- **No deleted semaphore is given, taken or deleted, and none is lost,** exactly in the runs whose creations,
gives and deletions come in order; so in those whose calls do. -/
theorem semaphore_life (max : Int32) (es : List LifeAction) :
    (Meets (step max) (Lawful max) boot es ↔ Meets (step max) (Ordered max) boot es) ∧
      (Meets (step max) CallsInOrder boot es → Meets (step max) (Lawful max) boot es) :=
  ⟨lawful_iff max es, lawful_of_calls max es⟩

/-- The station gets an address, and the call that waits for it returns. -/
def gotAddress : List WifiAction :=
  [.gotIp netifDescSta, .handler espOk, .caller .takeSemaphore, .caller .readRetryNum]

/-- A call of `wifi_sta_do_connect` that waits, and succeeds. -/
def connects : List LifeAction := .connect true :: (ConnectRun.toWait ++ gotAddress).map .sta

/-- A call of `wifi_sta_do_disconnect`. -/
def disconnects : List LifeAction := .disconnect :: List.replicate 5 (.close espOk)

/-- A call of `wifi_shutdown`. -/
def shutsDown : List LifeAction := .shutdown :: List.replicate 8 (.close espOk)

theorem semaphore_life_twice :
    Meets (step 5) (Lawful 5) boot (connects ++ disconnects ++ connects ++ shutsDown) :=
  (semaphore_life 5 _).2 (by decide +kernel)

/-- A disconnection, and the shutdown after it, delete one semaphore twice; two connections lose the first's. -/
theorem semaphore_deleted_twice :
    (run (step 5) boot (connects ++ disconnects ++ shutsDown)).record.deleted = [0, 0] ∧
      ¬ Meets (step 5) (Lawful 5) boot (connects ++ disconnects ++ shutsDown) ∧
      ¬ Meets (step 5) (Lawful 5) boot (connects ++ connects) := by
  refine ⟨?_, ?_, ?_⟩ <;> decide +kernel

end Life

end EspOta.Wifi

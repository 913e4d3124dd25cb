/-
# Readers that attach to the published record

All programs size the segment and the mapping by the pointer to the record and
not by the record: 8 bytes for 12. The time of the record lies behind the end of
the object, where only the page holds it, and every reader that attaches cuts the
object to 8 bytes again. A record is read back as stored until a reader attaches
after the store; from then on its time reads as 0.
-/

import Embsys.Forwarder.Handler
import Embsys.Converter.Handler

namespace Embsys.Pipeline

open Embsys.Os

/-- The three words of a record; the floats as they lie in memory. -/
structure RawShdata where
  latitude : BitVec 32
  longitude : BitVec 32
  time : BitVec 32
  deriving DecidableEq

/-- `struct SHDATA`: offsets of the fields. -/
def latitudeOffset : ℕ := 0
def longitudeOffset : ℕ := 4
def timeOffset : ℕ := 8

/-- The three stores of `decode_frame`. -/
def storeRecord (page : Page) (record : RawShdata) : Page :=
  let page := storeWord page timeOffset record.time
  let page := storeWord page latitudeOffset record.latitude
  storeWord page longitudeOffset record.longitude

/-- The record a reader loads. -/
def loadRecord (page : Page) : RawShdata where
  latitude := loadWord page latitudeOffset
  longitude := loadWord page longitudeOffset
  time := loadWord page timeOffset

/-- What happens to a segment: a store of `decode_frame`, or the start of a reader. -/
inductive Event
  | store (record : RawShdata)
  | forwarder (sem : Name) (port : ℤ) (outcomes : Outcomes)
  | converter (sem : Name) (outcomes : Outcomes)

/-- A process that holds nothing yet. -/
def Ledger.empty : Ledger := ⟨[], [], []⟩

/-- One event on the segment of this name. -/
def Event.run (shm : Name) (kernel : Kernel) : Event → Kernel
  | .store record =>
      match kernel.shms shm with
      | some entry =>
          { kernel with
            objects := Function.update kernel.objects entry.object
              { kernel.objects entry.object with
                page := storeRecord (kernel.objects entry.object).page record } }
      | none => kernel
  | .forwarder sem port outcomes =>
      (Forwarder.hndopen ⟨sem, shm, port⟩ .static outcomes ⟨kernel, Ledger.empty⟩).2.2.kernel
  | .converter sem outcomes =>
      (Converter.hndopen ⟨sem, shm⟩ .static outcomes ⟨kernel, Ledger.empty⟩).2.2.kernel

def runEvents (shm : Name) (kernel : Kernel) (events : List Event) : Kernel :=
  events.foldl (Event.run shm) kernel

/-- Whether the event is a start that gets as far as a successful `ftruncate`. -/
def Event.truncates (shm : Name) (kernel : Kernel) : Event → Bool
  | .store _ => false
  | .forwarder sem port outcomes => Forwarder.truncates ⟨sem, shm, port⟩ outcomes kernel
  | .converter sem outcomes => Converter.truncates ⟨sem, shm⟩ outcomes kernel

/-- Whether the event is a store. -/
def Event.isStore : Event → Bool
  | .store _ => true
  | _ => false

/-! ## One event -/

@[simp]
theorem loadRecord_storeRecord (page : Page) (record : RawShdata) :
    loadRecord (storeRecord page record) = record := by
  have hlongitude : ∀ page : Page, ∀ word, loadWord (storeWord page longitudeOffset word)
      latitudeOffset = loadWord page latitudeOffset :=
    fun page word => loadWord_storeWord_of_disjoint page word (Or.inl (by decide))
  have htime : ∀ page : Page, ∀ word, loadWord (storeWord page longitudeOffset word)
      timeOffset = loadWord page timeOffset :=
    fun page word => loadWord_storeWord_of_disjoint page word (Or.inr (by decide))
  have htime' : ∀ page : Page, ∀ word, loadWord (storeWord page latitudeOffset word)
      timeOffset = loadWord page timeOffset :=
    fun page word => loadWord_storeWord_of_disjoint page word (Or.inr (by decide))
  simp [loadRecord, storeRecord, hlongitude, htime, htime']

/-- Cutting the object to the size of a pointer loses the time and nothing else. -/
theorem loadRecord_clearFrom (page : Page) :
    loadRecord (clearFrom page sizeofPointer) = { loadRecord page with time := 0 } := by
  rw [loadRecord, loadWord_clearFrom_of_le page (by decide),
    loadWord_clearFrom_of_le page (by decide), loadWord_clearFrom_of_ge page (by decide)]
  rfl

section Segment

variable {shm : Name} {kernel : Kernel} {entry : Entry}

/-- A start truncates the segment if it reaches `ftruncate`, and does nothing else. -/
theorem Event.run_attach (hbound : kernel.shms shm = some entry) {event : Event}
    (hattach : event.isStore = false) :
    event.run shm kernel =
      if event.truncates shm kernel then kernel.truncate entry.object sizeofPointer
      else kernel := by
  cases event with
  | store record => simp [Event.isStore] at hattach
  | forwarder sem port outcomes =>
      exact Forwarder.hndopen_kernel ⟨sem, shm, port⟩ .static outcomes ⟨kernel, Ledger.empty⟩ hbound
  | converter sem outcomes =>
      exact Converter.hndopen_kernel ⟨sem, shm⟩ .static outcomes ⟨kernel, Ledger.empty⟩ hbound

/-- Events leave the names alone. -/
theorem Event.run_names (hbound : kernel.shms shm = some entry) (event : Event) :
    (event.run shm kernel).sems = kernel.sems ∧ (event.run shm kernel).shms = kernel.shms := by
  cases hstore : event.isStore with
  | true =>
      cases event with
      | store record => simp [Event.run, hbound]
      | forwarder sem port outcomes => simp [Event.isStore] at hstore
      | converter sem outcomes => simp [Event.isStore] at hstore
  | false =>
      rw [Event.run_attach hbound hstore]
      split_ifs <;> exact ⟨rfl, rfl⟩

/-- Whether a start reaches `ftruncate` depends on the kernel by its names only. -/
theorem Event.truncates_run (hbound : kernel.shms shm = some entry) (earlier event : Event) :
    event.truncates shm (earlier.run shm kernel) = event.truncates shm kernel := by
  obtain ⟨hsems, -⟩ := Event.run_names hbound earlier
  cases event <;> simp [Event.truncates, Forwarder.truncates, Converter.truncates, hsems]

/-- What a reader of the segment loads. -/
def loaded (kernel : Kernel) (entry : Entry) : RawShdata :=
  loadRecord (kernel.objects entry.object).page

theorem loaded_store (hbound : kernel.shms shm = some entry) (record : RawShdata) :
    loaded ((Event.store record).run shm kernel) entry = record := by
  simp [Event.run, hbound, loaded]

/-- **One attach.** It clears the time if it reaches `ftruncate`. -/
theorem loaded_attach (hbound : kernel.shms shm = some entry) {event : Event}
    (hattach : event.isStore = false) :
    loaded (event.run shm kernel) entry =
      if event.truncates shm kernel then { loaded kernel entry with time := 0 }
      else loaded kernel entry := by
  rw [Event.run_attach hbound hattach]
  split_ifs
  · simp [loaded, Kernel.truncate, ShmObject.truncate, loadRecord_clearFrom]
  · rfl

/-! ## Histories -/

/-- The segment keeps its name over a history. -/
theorem runEvents_bound (hbound : kernel.shms shm = some entry) (events : List Event) :
    (runEvents shm kernel events).shms shm = some entry ∧
      ∀ event : Event,
        event.truncates shm (runEvents shm kernel events) = event.truncates shm kernel := by
  induction events generalizing kernel with
  | nil => exact ⟨hbound, fun _ => rfl⟩
  | cons event events ih =>
      have hnext : (event.run shm kernel).shms shm = some entry := by
        rw [(Event.run_names hbound event).2, hbound]
      obtain ⟨hlast, htruncates⟩ := ih hnext
      exact ⟨hlast, fun later =>
        (htruncates later).trans (Event.truncates_run hbound event later)⟩

/-- Starts without a store between them: the time is cleared if any of them
reaches `ftruncate`. -/
theorem loaded_runEvents_attach (hbound : kernel.shms shm = some entry) {events : List Event}
    (hattach : ∀ event ∈ events, event.isStore = false) :
    loaded (runEvents shm kernel events) entry =
      if events.any (Event.truncates shm kernel) then { loaded kernel entry with time := 0 }
      else loaded kernel entry := by
  induction events generalizing kernel with
  | nil => rfl
  | cons event events ih =>
      have hnext : (event.run shm kernel).shms shm = some entry := by
        rw [(Event.run_names hbound event).2, hbound]
      have hsame : Event.truncates shm (event.run shm kernel) = Event.truncates shm kernel :=
        funext fun later => Event.truncates_run hbound event later
      have htail := ih hnext fun later hlater => hattach later (by simp [hlater])
      rw [hsame, loaded_attach hbound (hattach event (by simp))] at htail
      rw [runEvents, List.foldl_cons, ← runEvents, htail, List.any_cons]
      cases event.truncates shm kernel <;> cases events.any (Event.truncates shm kernel) <;> rfl

/-- **Attaching readers.** After the last store the record is read back as stored
exactly when no reader has got as far as `ftruncate` since, or its time is 0. -/
theorem loaded_eq_last_store_iff (hbound : kernel.shms shm = some entry) (before after : List Event)
    (record : RawShdata) (hlast : ∀ event ∈ after, event.isStore = false) :
    loaded (runEvents shm kernel (before ++ .store record :: after)) entry = record ↔
      record.time = 0 ∨ ∀ event ∈ after, event.truncates shm kernel = false := by
  obtain ⟨hbefore, htruncates⟩ := runEvents_bound hbound before
  have hnext : ((Event.store record).run shm (runEvents shm kernel before)).shms shm =
      some entry := by
    rw [(Event.run_names hbefore _).2, hbefore]
  have hsame : Event.truncates shm ((Event.store record).run shm (runEvents shm kernel before)) =
      Event.truncates shm kernel :=
    funext fun later => (Event.truncates_run hbefore _ later).trans (htruncates later)
  have hrun : runEvents shm kernel (before ++ .store record :: after) =
      runEvents shm ((Event.store record).run shm (runEvents shm kernel before)) after := by
    simp [runEvents]
  rw [hrun, loaded_runEvents_attach hnext hlast, hsame, loaded_store hbefore]
  cases hany : after.any (Event.truncates shm kernel) with
  | true =>
      have hsome : ¬ ∀ event ∈ after, event.truncates shm kernel = false := by
        simpa using List.any_eq_true.mp hany
      rw [if_pos rfl, or_iff_left hsome, eq_comm]
      constructor
      · intro heq
        rw [heq]
      · intro hzero
        rw [← hzero]
  | false =>
      have hnone : ∀ event ∈ after, event.truncates shm kernel = false := by
        simpa using List.any_eq_false.mp hany
      exact iff_of_true rfl (Or.inr hnone)

end Segment

/-- A segment as shm_writer creates it, under the name `s`. -/
def created : Kernel where
  sems := fun name => if name = ['l'] then some ⟨0, true⟩ else none
  shms := fun name => if name = ['s'] then some ⟨1, true⟩ else none
  objects := fun _ => ⟨8, fun _ => 0⟩
  next := 2

/-- System calls that all succeed. -/
def allSucceed : Outcomes := ⟨true, some 3, some 3, true, some 4, true, some 4096⟩

theorem loaded_eq_last_store_iff_forwarder :
    loaded (runEvents ['s'] created
        ([] ++ .store ⟨1, 2, 123519⟩ :: [.forwarder ['l'] 4242 allSucceed])) ⟨1, true⟩ =
          ⟨1, 2, 123519⟩ ↔
      (123519 : BitVec 32) = 0 ∨ ∀ event ∈ [Event.forwarder ['l'] 4242 allSucceed],
        event.truncates ['s'] created = false :=
  loaded_eq_last_store_iff (by decide) [] [.forwarder ['l'] 4242 allSucceed] ⟨1, 2, 123519⟩
    (by simp [Event.isStore])

/-- A forwarder that starts after a store clears its time. -/
theorem not_forall_loaded_eq_last_store :
    ¬ ∀ (shm : Name) (kernel : Kernel) (entry : Entry) (before after : List Event)
        (record : RawShdata), kernel.shms shm = some entry →
      (∀ event ∈ after, event.isStore = false) →
      loaded (runEvents shm kernel (before ++ .store record :: after)) entry = record := by
  intro h
  have hload := h ['s'] created ⟨1, true⟩ [] [.forwarder ['l'] 4242 allSucceed] ⟨1, 2, 123519⟩
    (by decide) (by simp [Event.isStore])
  exact absurd (congrArg RawShdata.time hload) (by decide)

end Embsys.Pipeline

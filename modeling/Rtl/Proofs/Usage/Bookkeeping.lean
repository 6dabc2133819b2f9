import Rtl.Proofs.Construction
import Rtl.Proofs.Types.Joints

namespace Rtl.Architecture

-- What is entered for a signal; nothing for one that is not there.

def driversOf (arch : Architecture) (id : SignalId) : List Driver :=
  ((arch.signals.get? id).map Signal.drivers).getD []

def readersOf (arch : Architecture) (id : SignalId) : List Reader :=
  ((arch.signals.get? id).map Signal.readers).getD []

def origin? (arch : Architecture) (id : SignalId) : Option Expr :=
  (arch.signals.get? id).bind Signal.origin

-- What drives and what reads a signal by the parts of the architecture, whatever
-- is entered for it.

def Maps (arch : Architecture) (position : Nat) (id : SignalId) : Prop :=
  ∃ component name, arch.components[position]? = some component ∧ (name, id) ∈ component.portMap

def IsDriver (arch : Architecture) : Driver → SignalId → Prop
  | .port port, id => (port, id) ∈ arch.portBindings ∧
      (arch.portDirection? port = some .input ∨ arch.portDirection? port = some .inout)
  | .connection source, id => ⟨id, source⟩ ∈ arch.connections
  | .statement statement, id =>
      ∃ process ∈ arch.processes.toList, (id, statement) ∈ Statement.targets process.body
  | .component position, id => arch.Maps position id

def IsReader (arch : Architecture) : Reader → SignalId → Prop
  | .port port, id => (port, id) ∈ arch.portBindings ∧
      (arch.portDirection? port = some .output ∨ arch.portDirection? port = some .inout)
  | .connection destination, id => ⟨destination, id⟩ ∈ arch.connections ∨
      ∃ origin, arch.origin? destination = some origin ∧ id ∈ origin.signals
  | .process pid, id =>
      ∃ process ∈ arch.processes.toList, process.id = pid ∧ id ∈ process.sensitivity
  | .component position, id => arch.Maps position id

-- What is entered for signals is what the parts say, and no signal is on a port
-- that is not there.
structure Tracked (arch : Architecture) : Prop where
  ports : ∀ binding ∈ arch.portBindings, ∃ direction, arch.portDirection? binding.1 = some direction
  drivers : ∀ driver id, driver ∈ arch.driversOf id ↔ arch.IsDriver driver id
  readers : ∀ reader id, reader ∈ arch.readersOf id ↔ arch.IsReader reader id

-- A step that enters some drivers and readers of signals there are, and changes
-- nothing else that matters to them.
structure Enters (arch : Architecture) (drivers : Driver → SignalId → Prop)
    (readers : Reader → SignalId → Prop) (next : Architecture) : Prop where
  frame : next = { arch with signals := next.signals }
  origins : ∀ id, next.origin? id = arch.origin? id
  hasSignal : ∀ id, next.hasSignal id = arch.hasSignal id
  drivers : ∀ driver id, driver ∈ next.driversOf id ↔
    driver ∈ arch.driversOf id ∨ arch.hasSignal id ∧ drivers driver id
  readers : ∀ reader id, reader ∈ next.readersOf id ↔
    reader ∈ arch.readersOf id ∨ arch.hasSignal id ∧ readers reader id

variable {arch joined next last : Architecture} {drivers drivers' : Driver → SignalId → Prop}
  {readers readers' : Reader → SignalId → Prop}

namespace Enters

theorem refl (arch : Architecture) :
    arch.Enters (fun _ _ => False) (fun _ _ => False) arch :=
  ⟨rfl, fun _ => rfl, fun _ => rfl, by simp, by simp⟩

theorem trans (h : arch.Enters drivers readers next) (hnext : next.Enters drivers' readers' last) :
    arch.Enters (fun driver id => drivers driver id ∨ drivers' driver id)
      (fun reader id => readers reader id ∨ readers' reader id) last where
  frame := by rw [hnext.frame, h.frame]
  origins id := (hnext.origins id).trans (h.origins id)
  hasSignal id := (hnext.hasSignal id).trans (h.hasSignal id)
  drivers driver id := by rw [hnext.drivers, h.drivers, h.hasSignal, or_assoc, ← and_or_left]
  readers reader id := by rw [hnext.readers, h.readers, h.hasSignal, or_assoc, ← and_or_left]

theorem of_iff (h : arch.Enters drivers readers next)
    (hdrivers : ∀ driver id, drivers driver id ↔ drivers' driver id)
    (hreaders : ∀ reader id, readers reader id ↔ readers' reader id) :
    arch.Enters drivers' readers' next :=
  { h with
    drivers := fun driver id => by rw [h.drivers, hdrivers]
    readers := fun reader id => by rw [h.readers, hreaders] }

-- Drivers first and then readers.
theorem both (h : arch.Enters drivers (fun _ _ => False) next)
    (hnext : next.Enters (fun _ _ => False) readers last) : arch.Enters drivers readers last :=
  (h.trans hnext).of_iff (by simp) (by simp)

-- A change to the entries of one signal.
theorem modify (arch : Architecture) (id : SignalId) (drivers : List Driver)
    (readers : List Reader) (change : Signal → Signal)
    (hdrivers : ∀ signal, (change signal).drivers = signal.drivers ++ drivers)
    (hreaders : ∀ signal, (change signal).readers = signal.readers ++ readers)
    (horigin : ∀ signal, (change signal).origin = signal.origin) :
    arch.Enters (fun driver other => other = id ∧ driver ∈ drivers)
      (fun reader other => other = id ∧ reader ∈ readers)
      { arch with signals := arch.signals.modify id change } := by
  have hget (other : SignalId) : (arch.signals.modify id change).get? other =
      (arch.signals.get? other).map fun signal => if other = id then change signal else signal := by
    simp only [Arena.modify, Arena.get?, Array.getElem?_modify]
    by_cases hother : other = id
    · simp [hother]
    · have hindex : id.index ≠ other.index := fun h => hother (Id.index_injective h.symm)
      simp [hother, hindex]
  have hhas (other : SignalId) : arch.hasSignal other = (arch.signals.get? other).isSome := by
    rw [Bool.eq_iff_iff, hasSignal_iff, Option.isSome_iff_exists]
  refine ⟨rfl, fun other => ?_, fun other => ?_, fun driver other => ?_, fun reader other => ?_⟩
  · simp only [origin?, hget]
    cases arch.signals.get? other with
    | none => rfl
    | some signal =>
        simp only [Option.map_some, Option.bind_some]
        split
        · exact horigin signal
        · rfl
  · simp only [Architecture.hasSignal, Arena.contains, Arena.size_modify]
  · simp only [driversOf, hget, hhas]
    cases arch.signals.get? other with
    | none => simp
    | some signal =>
        by_cases hother : other = id
        · simp [hother, hdrivers]
        · simp [hother]
  · simp only [readersOf, hget, hhas]
    cases arch.signals.get? other with
    | none => simp
    | some signal =>
        by_cases hother : other = id
        · simp [hother, hreaders]
        · simp [hother]

theorem addDriver (arch : Architecture) (id : SignalId) (driver : Driver) :
    arch.Enters (fun other at' => at' = id ∧ other = driver) (fun _ _ => False)
      (arch.addDriver id driver) := by
  have h := modify arch id [driver] [] (Signal.addDriver driver) (fun _ => rfl)
    (fun _ => (List.append_nil _).symm) fun _ => rfl
  exact h.of_iff (by simp) (by simp)

theorem addReader (arch : Architecture) (id : SignalId) (reader : Reader) :
    arch.Enters (fun _ _ => False) (fun other at' => at' = id ∧ other = reader)
      (arch.addReader id reader) := by
  have h := modify arch id [] [reader] (Signal.addReader reader)
    (fun _ => (List.append_nil _).symm) (fun _ => rfl) fun _ => rfl
  exact h.of_iff (by simp) (by simp)

-- The same step for each item of a list.
theorem foldl {α : Type} {change : Architecture → α → Architecture}
    {drivers : α → Driver → SignalId → Prop} {readers : α → Reader → SignalId → Prop}
    (hchange : ∀ arch item, Enters arch (drivers item) (readers item) (change arch item))
    (items : List α) (arch : Architecture) :
    arch.Enters (fun driver id => ∃ item ∈ items, drivers item driver id)
      (fun reader id => ∃ item ∈ items, readers item reader id) (items.foldl change arch) := by
  induction items generalizing arch with
  | nil => exact (refl arch).of_iff (by simp) (by simp)
  | cons item rest ih => exact ((hchange arch item).trans (ih _)).of_iff (by simp) (by simp)

theorem addDrivers {α : Type} (signal : α → SignalId) (driver : α → Driver) (items : List α)
    (arch : Architecture) :
    arch.Enters (fun other id => ∃ item ∈ items, id = signal item ∧ other = driver item)
      (fun _ _ => False)
      (items.foldl (fun arch item => arch.addDriver (signal item) (driver item)) arch) := by
  have h := foldl (fun arch item => addDriver arch (signal item) (driver item)) items arch
  exact h.of_iff (fun _ _ => .rfl) (by simp)

theorem addReaders {α : Type} (signal : α → SignalId) (reader : α → Reader) (items : List α)
    (arch : Architecture) :
    arch.Enters (fun _ _ => False)
      (fun other id => ∃ item ∈ items, id = signal item ∧ other = reader item)
      (items.foldl (fun arch item => arch.addReader (signal item) (reader item)) arch) := by
  have h := foldl (fun arch item => addReader arch (signal item) (reader item)) items arch
  exact h.of_iff (by simp) (fun _ _ => .rfl)

-- Components may be added before or after.
theorem withComponents (h : arch.Enters drivers readers next) (more : List Component) :
    Enters { arch with components := arch.components ++ more } drivers readers
      { next with components := next.components ++ more } where
  frame := by rw [h.frame]
  origins := h.origins
  hasSignal := h.hasSignal
  drivers := h.drivers
  readers := h.readers

-- No entry counts as a part of the architecture.

theorem isDriver_iff (h : arch.Enters drivers readers next) {driver : Driver} {id : SignalId} :
    next.IsDriver driver id ↔ arch.IsDriver driver id := by
  rw [h.frame]
  cases driver with
  | port | connection | statement | component => rfl

theorem isReader_iff (h : arch.Enters drivers readers next) {reader : Reader} {id : SignalId} :
    next.IsReader reader id ↔ arch.IsReader reader id := by
  cases reader with
  | connection destination =>
      rw [IsReader, IsReader, h.origins, h.frame]
  | port | process | component =>
      rw [h.frame]
      rfl

end Enters

-- New parts and what is entered for them.
theorem Tracked.step (h : arch.Tracked) (henters : joined.Enters drivers readers next)
    (hdriversOf : ∀ id, joined.driversOf id = arch.driversOf id)
    (hreadersOf : ∀ id, joined.readersOf id = arch.readersOf id)
    (hthere : ∀ id, (∃ driver, drivers driver id) ∨ (∃ reader, readers reader id) →
      joined.hasSignal id = true)
    (hdriver : ∀ driver id, joined.IsDriver driver id ↔ arch.IsDriver driver id ∨ drivers driver id)
    (hreader : ∀ reader id, joined.IsReader reader id ↔ arch.IsReader reader id ∨ readers reader id)
    (hports : ∀ binding ∈ joined.portBindings,
      ∃ direction, joined.portDirection? binding.1 = some direction) : next.Tracked where
  ports := by
    rw [henters.frame]
    exact hports
  drivers driver id := by
    rw [henters.drivers, henters.isDriver_iff, hdriver, hdriversOf, h.drivers,
      and_iff_right_of_imp fun hdriver => hthere id (.inl ⟨driver, hdriver⟩)]
  readers reader id := by
    rw [henters.readers, henters.isReader_iff, hreader, hreadersOf, h.readers,
      and_iff_right_of_imp fun hreader => hthere id (.inr ⟨reader, hreader⟩)]

theorem Tracked.of_same (h : arch.Tracked)
    (hdriversOf : ∀ id, next.driversOf id = arch.driversOf id)
    (hreadersOf : ∀ id, next.readersOf id = arch.readersOf id)
    (hdriver : ∀ driver id, next.IsDriver driver id ↔ arch.IsDriver driver id)
    (hreader : ∀ reader id, next.IsReader reader id ↔ arch.IsReader reader id)
    (hports : ∀ binding ∈ next.portBindings,
      ∃ direction, next.portDirection? binding.1 = some direction) : next.Tracked :=
  h.step (.refl next) hdriversOf hreadersOf (by simp) (by simpa using hdriver)
    (by simpa using hreader) hports

-- One more signal.
def withSignal (arch : Architecture) (item : SignalId → Signal) : Architecture :=
  { arch with signals := (arch.signals.allocWith item).2 }

section

variable {item : SignalId → Signal}

theorem get?_withSignal (id : SignalId) : (arch.withSignal item).signals.get? id =
    if id = arch.signals.nextId then some (item arch.signals.nextId) else arch.signals.get? id := by
  split
  · rename_i hlast
    exact Arena.get?_allocWith_iff.mpr (.inr ⟨hlast, rfl⟩)
  · rename_i hne
    refine Option.ext fun signal => ?_
    rw [withSignal, Arena.get?_allocWith_iff]
    simp [hne]

theorem get?_nextId : arch.signals.get? arch.signals.nextId = none :=
  Array.getElem?_eq_none (Nat.le_refl _)

theorem driversOf_withSignal (hitem : (item arch.signals.nextId).drivers = []) (id : SignalId) :
    (arch.withSignal item).driversOf id = arch.driversOf id := by
  simp only [driversOf, get?_withSignal]
  split
  · rename_i hlast
    simp only [hlast, get?_nextId, Option.map_some, Option.getD_some, hitem]
    rfl
  · rfl

theorem readersOf_withSignal (hitem : (item arch.signals.nextId).readers = []) (id : SignalId) :
    (arch.withSignal item).readersOf id = arch.readersOf id := by
  simp only [readersOf, get?_withSignal]
  split
  · rename_i hlast
    simp only [hlast, get?_nextId, Option.map_some, Option.getD_some, hitem]
    rfl
  · rfl

theorem isDriver_withSignal {driver : Driver} {id : SignalId} :
    (arch.withSignal item).IsDriver driver id ↔ arch.IsDriver driver id := by
  cases driver with
  | port | connection | statement | component => rfl

-- What a new signal stands for is read by it.
theorem isReader_withSignal {reader : Reader} {id : SignalId} :
    (arch.withSignal item).IsReader reader id ↔ arch.IsReader reader id ∨
      ∃ origin, (item arch.signals.nextId).origin = some origin ∧ id ∈ origin.signals ∧
        reader = .connection arch.signals.nextId := by
  cases reader with
  | port | process | component => simp [IsReader, Maps, portDirection?, withSignal]
  | connection destination =>
      have horigin : (arch.withSignal item).origin? destination =
          if destination = arch.signals.nextId then (item arch.signals.nextId).origin
          else arch.origin? destination := by
        rw [origin?, get?_withSignal]
        split
        · rfl
        · rfl
      have hnone : arch.origin? arch.signals.nextId = none := by rw [origin?, get?_nextId]; rfl
      rw [IsReader, IsReader, horigin]
      by_cases hlast : destination = arch.signals.nextId
      · simp [hlast, hnone, withSignal]
      · simp [hlast, withSignal]

end

namespace Tracked

theorem addSignal (h : arch.Tracked) (name : NameId) (type : TypeId) (default : Option Value) :
    (arch.addSignal name type default).2.Tracked := by
  let item (id : SignalId) : Signal :=
    { id, name, type, default, drivers := [], readers := [], hidden := false, origin := none
      leaf := none }
  show (arch.withSignal item).Tracked
  refine h.of_same (driversOf_withSignal rfl) (readersOf_withSignal rfl)
    (fun _ _ => isDriver_withSignal) (fun reader id => ?_) h.ports
  rw [isReader_withSignal]
  simp [item]

theorem addHidden (h : arch.Tracked) {id : SignalId} {name : NameId} {type : TypeId} {origin : Expr}
    (hnext : arch.addHidden? name type origin = some (id, next)) : next.Tracked := by
  let item (id : SignalId) : Signal :=
    { id, name, type, default := none, drivers := [], readers := [], hidden := true
      origin := some origin, leaf := none }
  have henters := Enters.addReaders (fun id => id) (fun _ => .connection arch.signals.nextId)
    origin.signals (arch.withSignal item)
  simp only [addHidden?, Option.ite_none_right_eq_some] at hnext
  obtain ⟨hthere, hnext⟩ := hnext
  obtain ⟨-, rfl⟩ := Prod.mk.inj (Option.some.inj hnext)
  refine h.step henters (driversOf_withSignal rfl) (readersOf_withSignal rfl) ?_
    (fun driver id => by simp [isDriver_withSignal]) (fun reader id => ?_) h.ports
  · rintro id (⟨_, ⟨⟩⟩ | ⟨_, _, hmem, rfl, -⟩)
    exact (henters.hasSignal id).symm.trans (List.all_eq_true.mp hthere id hmem)
  · rw [isReader_withSignal]
    simp [item]

theorem of_enters (h : arch.Tracked)
    (henters : arch.Enters (fun _ _ => False) (fun _ _ => False) next) : next.Tracked :=
  h.step henters (fun _ => rfl) (fun _ => rfl) (by simp) (by simp) (by simp) h.ports

theorem setHidden (h : arch.Tracked) (id : SignalId) (hidden : Bool) :
    (arch.setHidden id hidden).Tracked := by
  have henters := Enters.modify arch id [] [] (fun signal => { signal with hidden })
    (fun _ => (List.append_nil _).symm) (fun _ => (List.append_nil _).symm) fun _ => rfl
  exact h.of_enters (henters.of_iff (by simp) (by simp))

theorem setLeaf (h : arch.Tracked) (id : SignalId) (leaf : NodeId) :
    (arch.setLeaf id leaf).Tracked := by
  have henters := Enters.modify arch id [] [] (fun signal => { signal with leaf := some leaf })
    (fun _ => (List.append_nil _).symm) (fun _ => (List.append_nil _).symm) fun _ => rfl
  exact h.of_enters (henters.of_iff (by simp) (by simp))

theorem addProcess (h : arch.Tracked) {id : ProcessId} {name : NameId}
    {sensitivity : List SignalId} {body : List Statement}
    (hnext : arch.addProcess? name sensitivity body = some (id, next)) : next.Tracked := by
  let process : Process := ⟨arch.processes.nextId, name, sensitivity, body⟩
  let joined : Architecture := { arch with processes := ⟨arch.processes.items.push process⟩ }
  have hprocesses : joined.processes.toList = arch.processes.toList ++ [process] :=
    Array.toList_push ..
  simp only [addProcess?, Option.ite_none_right_eq_some, Bool.and_eq_true,
    List.all_eq_true] at hnext
  obtain ⟨⟨htargets, hsensitivity⟩, hnext⟩ := hnext
  obtain ⟨-, rfl⟩ := Prod.mk.inj (Option.some.inj hnext)
  have hdriven := Enters.addDrivers (fun target => target.1) (fun target => .statement target.2)
    (Statement.targets body) joined
  have henters := hdriven.both (Enters.addReaders (fun id => id)
    (fun _ => .process arch.processes.nextId) sensitivity _)
  refine h.step henters (fun _ => rfl) (fun _ => rfl) ?_ (fun driver id => ?_) (fun reader id => ?_)
    h.ports
  · rintro id (⟨_, target, hmem, rfl, -⟩ | ⟨_, _, hmem, rfl, -⟩)
    · exact htargets target hmem
    · exact hsensitivity id hmem
  · cases driver with
    | port | connection | component => simp [IsDriver, Maps, portDirection?, joined]
    | statement statement => simp [IsDriver, hprocesses, process, or_and_right, exists_or]
  · cases reader with
    | port | connection | component => simp [IsReader, Maps, portDirection?, origin?, joined]
    | process pid =>
        simp only [IsReader, hprocesses, List.mem_append, List.mem_singleton, or_and_right,
          exists_or, exists_eq_left, process]
        simp [and_comm, eq_comm]

theorem connect (h : arch.Tracked) {destination source : SignalId}
    (hnext : arch.connect? destination source = some next) : next.Tracked := by
  let joined : Architecture :=
    { arch with connections := arch.connections ++ [⟨destination, source⟩] }
  simp only [connect?, Option.ite_none_right_eq_some, Bool.and_eq_true] at hnext
  obtain ⟨⟨hdestination, hsource⟩, hnext⟩ := hnext
  obtain rfl := Option.some.inj hnext
  have henters := (Enters.addDriver joined destination (.connection source)).both
    (Enters.addReader _ source (.connection destination))
  refine h.step henters (fun _ => rfl) (fun _ => rfl) ?_ (fun driver id => ?_) (fun reader id => ?_)
    h.ports
  · rintro id (⟨_, rfl, -⟩ | ⟨_, rfl, -⟩)
    · exact hdestination
    · exact hsource
  · cases driver with
    | port | statement | component => simp [IsDriver, Maps, portDirection?, joined]
    | connection other => simp [IsDriver, joined]
  · cases reader with
    | port | process | component => simp [IsReader, Maps, portDirection?, joined]
    | connection other => simp [IsReader, joined, origin?, or_right_comm, and_comm]

theorem bindPort (h : arch.Tracked) {signal : SignalId} {port : PortId}
    (hnext : arch.bindPort? signal port = some next) : next.Tracked := by
  let joined : Architecture := { arch with portBindings := arch.portBindings ++ [(port, signal)] }
  simp only [bindPort?, Option.ite_none_right_eq_some, Bool.and_eq_true] at hnext
  obtain ⟨⟨hsignal, hport⟩, hnext⟩ := hnext
  obtain rfl := Option.some.inj hnext
  -- What is entered depends on the direction of the port alone.
  have henters : joined.Enters
      (fun driver id => (id = signal ∧ driver = .port port) ∧
        (arch.portDirection? port = some .input ∨ arch.portDirection? port = some .inout))
      (fun reader id => (id = signal ∧ reader = .port port) ∧
        (arch.portDirection? port = some .output ∨ arch.portDirection? port = some .inout))
      (arch.bindPort signal port) := by
    rw [Architecture.bindPort]
    have hdriver := Enters.addDriver joined signal (.port port)
    split
    · rename_i hdirection
      exact hdriver.of_iff (by simp [hdirection]) (by simp [hdirection])
    · rename_i hdirection
      exact (Enters.addReader joined signal (.port port)).of_iff (by simp [hdirection])
        (by simp [hdirection])
    · rename_i hdirection
      exact (hdriver.both (Enters.addReader _ signal (.port port))).of_iff (by simp [hdirection])
        (by simp [hdirection])
    · rename_i hdirection
      exact (Enters.refl joined).of_iff (by simp [hdirection]) (by simp [hdirection])
  have hbinding (other : PortId) (id : SignalId) : (other, id) ∈ joined.portBindings ↔
      (other, id) ∈ arch.portBindings ∨ id = signal ∧ other = port := by
    simp [joined, and_comm]
  have hdirection : joined.portDirection? = arch.portDirection? := rfl
  refine h.step henters (fun _ => rfl) (fun _ => rfl) ?_ (fun driver id => ?_) (fun reader id => ?_)
    ?_
  · rintro id (⟨_, ⟨rfl, -⟩, -⟩ | ⟨_, ⟨rfl, -⟩, -⟩)
    · exact hsignal
    · exact hsignal
  · cases driver with
    | connection | statement | component => simp [IsDriver, Maps, joined]
    | port other =>
        simp only [IsDriver, hdirection, hbinding, or_and_right, Driver.port.injEq]
        refine or_congr_right (and_congr_right ?_)
        rintro ⟨-, rfl⟩
        rfl
  · cases reader with
    | connection | process | component => simp [IsReader, Maps, origin?, joined]
    | port other =>
        simp only [IsReader, hdirection, hbinding, or_and_right, Reader.port.injEq]
        refine or_congr_right (and_congr_right ?_)
        rintro ⟨-, rfl⟩
        rfl
  · rw [hdirection]
    intro binding hmem
    rcases (hbinding binding.1 binding.2).mp hmem with hmem | ⟨-, hsame⟩
    · exact h.ports _ hmem
    · rw [hsame, portDirection?, Arena.get?, Array.getElem?_eq_getElem (of_decide_eq_true hport)]
      exact ⟨_, rfl⟩

theorem addComponent (h : arch.Tracked) {component : Component}
    (hnext : arch.addComponent? component = some next) : next.Tracked := by
  let joined : Architecture := { arch with components := arch.components ++ [component] }
  simp only [addComponent?, Option.ite_none_right_eq_some, List.all_eq_true] at hnext
  obtain ⟨hmapped, hnext⟩ := hnext
  obtain rfl := Option.some.inj hnext
  have hone (at' : Architecture) (entry : NameId × SignalId) :=
    (Enters.addDriver at' entry.2 (.component arch.components.length)).both
      (Enters.addReader _ entry.2 (.component arch.components.length))
  have henters := (Enters.foldl hone component.portMap arch).withComponents [component]
  have hmaps (position : Nat) (id : SignalId) : joined.Maps position id ↔
      arch.Maps position id ∨
        ∃ entry ∈ component.portMap, id = entry.2 ∧ position = arch.components.length := by
    constructor
    · rintro ⟨found, name, hfound, hmem⟩
      simp only [joined, List.getElem?_append] at hfound
      split at hfound
      · exact .inl ⟨found, name, hfound, hmem⟩
      · rename_i hpast
        obtain ⟨hzero, rfl⟩ := by simpa [List.getElem?_singleton] using hfound
        exact .inr ⟨_, hmem, rfl, by omega⟩
    · rintro (⟨found, name, hfound, hmem⟩ | ⟨⟨name, _⟩, hmem, rfl, rfl⟩)
      · obtain ⟨hlt, -⟩ := List.getElem?_eq_some_iff.mp hfound
        exact ⟨found, name, (List.getElem?_append_left hlt).trans hfound, hmem⟩
      · exact ⟨component, name, List.getElem?_concat_length, hmem⟩
  refine h.step henters (fun _ => rfl) (fun _ => rfl) ?_ (fun driver id => ?_) (fun reader id => ?_)
    h.ports
  · rintro id (⟨_, entry, hmem, rfl, -⟩ | ⟨_, entry, hmem, rfl, -⟩)
    · exact hmapped entry hmem
    · exact hmapped entry hmem
  · cases driver with
    | port | connection | statement => simp [IsDriver, portDirection?]
    | component position =>
        simp only [Driver.component.injEq]
        exact hmaps position id
  · cases reader with
    | port | connection | process => simp [IsReader, portDirection?, origin?]
    | component position =>
        simp only [Reader.component.injEq]
        exact hmaps position id

end Tracked

-- What is entered for the signals of an architecture is what its parts say, by
-- whatever operations it was made.
theorem Built.tracked (h : arch.Built) : arch.Tracked := by
  induction h with
  | @new name entity h =>
      have hdrivers (id : SignalId) : (ofEntity name entity).driversOf id = [] := rfl
      have hreaders (id : SignalId) : (ofEntity name entity).readersOf id = [] := rfl
      have horigin (id : SignalId) : (ofEntity name entity).origin? id = none := rfl
      refine ⟨nofun, fun driver id => ?_, fun reader id => ?_⟩
      · rw [hdrivers]
        cases driver with
        | port | connection | statement | component =>
            simp [IsDriver, Maps, ofEntity, Arena.toList, Arena.empty]
      · rw [hreaders]
        cases reader with
        | connection =>
            have hlinks : (ofEntity name entity).connections = [] := rfl
            simp [IsReader, horigin, hlinks]
        | port | process | component =>
            simp [IsReader, Maps, ofEntity, Arena.toList, Arena.empty]
  | freshStatement h ih => exact ⟨ih.ports, ih.drivers, ih.readers⟩
  | addSignal h name type default ih => exact ih.addSignal name type default
  | addHidden h hnext ih => exact ih.addHidden hnext
  | setHidden h hnext ih =>
      simp only [setHidden?, Option.ite_none_right_eq_some] at hnext
      obtain rfl := Option.some.inj hnext.2
      exact ih.setHidden _ _
  | setLeaf h id leaf ih => exact ih.setLeaf id leaf
  | addProcess h hnext ih => exact ih.addProcess hnext
  | connect h hnext ih => exact ih.connect hnext
  | bindPort h hnext ih => exact ih.bindPort hnext
  | addComponent h hnext ih => exact ih.addComponent hnext

end Rtl.Architecture

import AesdChar.CodeLib.Registry
import AesdChar.Scull.Bare.Runs

/-!
# The private devices

`scullpriv` of `scull/access.c`: a bare device for each terminal.  The first open at a
terminal makes it, and it stays.  An open for writing only empties the device that it has
found, and does not take its mutex.  Here the opens come one after the other, and nobody
reads or writes.

`clone_run_private` says that the list is a registry: the opens at one terminal get one
device, and no other open gets it.
-/

namespace AesdChar.Scull

open CodeLib

/-! ## The list -/

/-- `struct scull_listitem`, and where it lies. -/
structure ScullListitem where
  addr : Nat
  device : ScullMem
  key : Nat

/-- `scull_c_list`.  Items are never freed, so each one lies at a new place. -/
structure CloneList where
  items : List ScullListitem
  fresh : Nat

/-- A caller of `scull_c_open`: its terminal, its access mode, whether there is memory for
an item, and the parameters of the module by then. -/
structure CloneCall where
  tty : Option Nat
  mode : FMode
  kmallocOk : Bool
  params : ScullParams

/-- The device that an open gets, or what it returns instead. -/
inductive CloneEvent
  | opened (key device : Nat)
  | returned (ret : Int)
deriving DecidableEq, Repr

/-- A device behind `memset`. -/
def ScullMem.zeroed : ScullMem := ⟨⟨[]⟩, ⟨[]⟩, ⟨[]⟩, ⟨.null, 0, 0, 0⟩⟩

namespace CloneList

/-- `scull_c_lookfor_device` -/
def lookforDevice (c : CloneCall) (key : Nat) (s : CloneList) :
    Except Fault (Option Nat × CloneList) :=
  match s.items.find? (fun lptr => lptr.key = key) with
  | some lptr => return (some lptr.addr, s)
  | none =>
    if c.kmallocOk then do
      let device ← ScullMem.zeroed.trim c.params
      return (some s.fresh, ⟨⟨s.fresh, device, key⟩ :: s.items, s.fresh + 1⟩)
    else return (none, s)

/-- `scull_trim` of the device at `dev`. -/
def trimDevice (params : ScullParams) (dev : Nat) :
    List ScullListitem → Except Fault (List ScullListitem)
  | [] => .error .badAccess
  | lptr :: items =>
    if lptr.addr = dev then do
      let device ← lptr.device.trim params
      return { lptr with device := device } :: items
    else do
      let items ← trimDevice params dev items
      return lptr :: items

/-- `scull_c_open`. -/
def scullCOpen (s : CloneList) (c : CloneCall) : Except Fault (CloneEvent × CloneList) :=
  match c.tty with
  | none => return (.returned (-EINVAL), s)
  | some key => do
    let (dev, s) ← s.lookforDevice c key
    match dev with
    | none => return (.returned (-ENOMEM), s)
    | some dev =>
      let items ← (if c.mode = ⟨false, true⟩ then trimDevice c.params dev s.items else .ok s.items)
      return (.opened key dev, { s with items := items })

def empty : CloneList := ⟨[], 0⟩

/-- A row of opens. -/
def run (s : CloneList) (calls : List CloneCall) : Except Fault (List CloneEvent × CloneList) :=
  Mealy.runExcept scullCOpen s calls

end CloneList

/-! ## The registry -/

/-- An open as a request. -/
def CloneEvent.request : CloneEvent → Registry.Request Nat Nat
  | .opened key device => .got key device
  | .returned _ => .refused

/-- The devices are as new as a bare one. -/
def AllBare (items : List ScullListitem) : Prop :=
  ∀ lptr ∈ items, ∃ params, lptr.device = (ScullSystem.init params : ScullSystem Unit).mem

/-- The list shows the registry. -/
structure CloneList.Inv (s : CloneList) (r : Registry Nat Nat) : Prop where
  find : ∀ key, r.find key = (s.items.find? (fun lptr => lptr.key = key)).map (·.addr)
  fresh : ∀ lptr ∈ s.items, lptr.addr < s.fresh
  devices : AllBare s.items

section Clone

variable {s s' : CloneList} {r : Registry Nat Nat} {c : CloneCall} {key : Nat}

/-- A device that nobody has written to is a bare one behind `scull_trim` too. -/
theorem ScullMem.init_trim (params params' : ScullParams) :
    (ScullSystem.init params' : ScullSystem Unit).mem.trim params =
      .ok (ScullSystem.init params : ScullSystem Unit).mem := rfl

theorem ScullMem.zeroed_trim (params : ScullParams) :
    ScullMem.zeroed.trim params = .ok (ScullSystem.init params : ScullSystem Unit).mem :=
  init_trim params ⟨0, 0, 0⟩

/-- `scull_trim` of a device in the list leaves the list as it is, and the devices bare. -/
theorem CloneList.trimDevice_spec {items : List ScullListitem} (h : AllBare items)
    {dev : Nat} (hdev : dev ∈ items.map (·.addr)) (params : ScullParams) :
    ∃ items', trimDevice params dev items = .ok items' ∧ AllBare items' ∧
      items'.map (fun lptr => (lptr.addr, lptr.key)) =
        items.map fun lptr => (lptr.addr, lptr.key) := by
  induction items with
  | nil => cases hdev
  | cons lptr items ih =>
    obtain ⟨hlptr, hitems⟩ := List.forall_mem_cons.mp h
    unfold trimDevice
    by_cases haddr : lptr.addr = dev
    · obtain ⟨params', hdevice⟩ := hlptr
      rw [if_pos haddr, hdevice, ScullMem.init_trim]
      exact ⟨_, rfl, List.forall_mem_cons.mpr ⟨⟨params, rfl⟩, hitems⟩, rfl⟩
    · have hrest : dev ∈ items.map (·.addr) :=
        (List.mem_cons.mp hdev).resolve_left (Ne.symm haddr)
      obtain ⟨items', htrim, hbare, hsame⟩ := ih hitems hrest
      rw [if_neg haddr, htrim]
      refine ⟨lptr :: items', rfl, List.forall_mem_cons.mpr ⟨hlptr, hbare⟩, ?_⟩
      rw [List.map_cons, List.map_cons, hsame]

/-- There is no memory for a new device. -/
theorem CloneList.lookforDevice_refused
    (hfind : s.items.find? (fun lptr => lptr.key = key) = none) (hok : c.kmallocOk = false) :
    s.lookforDevice c key = .ok (none, s) := by
  unfold lookforDevice
  rw [hfind]
  simp only [hok]
  rfl

namespace CloneList.Inv

/-- A terminal that has a device keeps it. -/
theorem known (h : s.Inv r) {lptr : ScullListitem}
    (hfind : s.items.find? (fun lptr => lptr.key = key) = some lptr) :
    s.lookforDevice c key = .ok (some lptr.addr, s) ∧ r.find key = some lptr.addr := by
  refine ⟨?_, ?_⟩
  · unfold lookforDevice
    rw [hfind]
    rfl
  · rw [h.find, hfind]
    rfl

/-- A terminal gets a device of its own. -/
theorem new (h : s.Inv r) (hfind : s.items.find? (fun lptr => lptr.key = key) = none)
    (hok : c.kmallocOk = true) :
    ∃ s', s.lookforDevice c key = .ok (some s.fresh, s') ∧
      s.fresh ∈ s'.items.map (·.addr) ∧ ∃ hnew, s'.Inv (r.add key s.fresh hnew) := by
  have hnew (k : Nat) : r.find k ≠ some s.fresh := by
    intro hno
    rw [h.find] at hno
    obtain ⟨lptr, hlptr, haddr⟩ := Option.map_eq_some_iff.mp hno
    have hlt := h.fresh lptr (List.mem_of_find?_eq_some hlptr)
    omega
  refine ⟨⟨⟨s.fresh, (ScullSystem.init c.params : ScullSystem Unit).mem, key⟩ :: s.items,
    s.fresh + 1⟩, ?_, List.mem_cons_self, hnew, fun k => ?_, fun lptr hmem => ?_,
    fun lptr hmem => ?_⟩
  · unfold lookforDevice
    rw [hfind]
    simp only [hok, if_true, ScullMem.zeroed_trim, ok_bind]
    rfl
  · show Function.update r.find key (some s.fresh) k = _
    by_cases hk : k = key
    · rw [hk, Function.update_self, List.find?_cons_of_pos (by simp)]
      rfl
    · rw [Function.update_of_ne hk, List.find?_cons_of_neg (by simpa using Ne.symm hk)]
      exact h.find k
  · rcases List.mem_cons.mp hmem with rfl | hmem
    · exact Nat.lt_succ_self _
    · exact Nat.lt_succ_of_lt (h.fresh lptr hmem)
  · rcases List.mem_cons.mp hmem with rfl | hmem
    · exact ⟨c.params, rfl⟩
    · exact h.devices lptr hmem

/-- The registry does not see what the devices hold. -/
theorem with_items (h : s.Inv r) {items : List ScullListitem} (hbare : AllBare items)
    (hsame : items.map (fun lptr => (lptr.addr, lptr.key)) =
      s.items.map fun lptr => (lptr.addr, lptr.key)) : { s with items := items }.Inv r where
  find key := by
    have hshape (items : List ScullListitem) :
        (items.find? (fun lptr => lptr.key = key)).map (·.addr) =
          ((items.map fun lptr => (lptr.addr, lptr.key)).find? (fun x => x.2 = key)).map (·.1) := by
      rw [List.find?_map, Option.map_map]
      rfl
    rw [h.find, hshape, hshape, hsame]
  fresh lptr hmem := by
    have hpair : (lptr.addr, lptr.key) ∈ s.items.map fun lptr => (lptr.addr, lptr.key) :=
      hsame ▸ List.mem_map_of_mem hmem
    obtain ⟨old, hold, heq⟩ := List.mem_map.mp hpair
    rw [← (Prod.mk.inj heq).1]
    exact h.fresh old hold
  devices := hbare

/-- Behind the look-up the open succeeds. -/
theorem opened (h : s.Inv r) {dev : Nat} (hdev : dev ∈ s.items.map (·.addr)) (mode : FMode)
    (params : ScullParams) :
    ∃ items, (if mode = ⟨false, true⟩ then trimDevice params dev s.items else .ok s.items) =
        .ok items ∧ { s with items := items }.Inv r := by
  by_cases hmode : mode = ⟨false, true⟩
  · obtain ⟨items, htrim, hbare, hsame⟩ := trimDevice_spec h.devices hdev params
    rw [if_pos hmode]
    exact ⟨items, htrim, h.with_items hbare hsame⟩
  · rw [if_neg hmode]
    exact ⟨s.items, rfl, h⟩

/-- An open is a request to the registry. -/
theorem step (h : s.Inv r) (c : CloneCall) :
    Trace.Refines (fun e => Registry.after (CloneEvent.request e)) CloneList.Inv r
      (s.scullCOpen c) := by
  unfold scullCOpen
  cases htty : c.tty with
  | none => exact ⟨_, s, r, rfl, rfl, h⟩
  | some key =>
    cases hfind : s.items.find? (fun lptr => lptr.key = key) with
    | some lptr =>
      obtain ⟨hlook, hknown⟩ := h.known (c := c) hfind
      obtain ⟨items, hopened, hinv⟩ :=
        h.opened (List.mem_map_of_mem (List.mem_of_find?_eq_some hfind)) c.mode c.params
      simp only [hlook, hopened, ok_bind]
      exact ⟨_, _, r, rfl, Registry.after_known hknown, hinv⟩
    | none =>
      cases hok : c.kmallocOk with
      | true =>
        obtain ⟨s', hlook, hdev, hnew, hinv⟩ := h.new hfind hok
        obtain ⟨items, hopened, hinv⟩ := hinv.opened hdev c.mode c.params
        simp only [hlook, hopened, ok_bind]
        refine ⟨_, _, _, rfl, Registry.after_new ?_ hnew, hinv⟩
        rw [h.find, hfind]
        rfl
      | false =>
        simp only [lookforDevice_refused hfind hok, ok_bind]
        exact ⟨_, s, r, rfl, rfl, h⟩

end CloneList.Inv

/-! ## Runs -/

/-- In a row of opens, two of them get one device exactly if they come from one terminal.
Nothing goes wrong in it, and every device stays as a bare one starts.  An open at a terminal
fails only for want of memory, and only if no open there has succeeded. -/
theorem clone_run_private (calls : List CloneCall) :
    ∃ events s, CloneList.empty.run calls = .ok (events, s) ∧
      (∀ k d k' d', .opened k d ∈ events → .opened k' d' ∈ events → (d = d' ↔ k = k')) ∧
      (∀ lptr ∈ s.items, ∃ params,
        lptr.device = (ScullSystem.init params : ScullSystem Unit).mem) ∧
      ∀ c k ret s', c.tty = some k → s.scullCOpen c = .ok (.returned ret, s') →
        ret = -ENOMEM ∧ c.kmallocOk = false ∧ ∀ d, .opened k d ∉ events := by
  have hinit : CloneList.empty.Inv .empty :=
    ⟨fun _ => rfl, fun _ hno => absurd hno List.not_mem_nil,
      fun _ hno => absurd hno List.not_mem_nil⟩
  obtain ⟨events, s, r, hrun, hreplay, hinv⟩ :=
    Trace.run_refines (fun h _ => CloneList.Inv.step h _) hinit
      (Trace.Along.all (fun _ _ => trivial) _ calls)
  refine ⟨events, s, hrun, fun k d k' d' hk hk' => ?_, hinv.devices,
    fun c k ret s' htty hopen => ?_⟩
  · exact Registry.replay_same_iff hreplay hk rfl hk' rfl
  · simp only [CloneList.scullCOpen, htty] at hopen
    cases hfind : s.items.find? (fun lptr => lptr.key = k) with
    | some lptr =>
      simp only [(hinv.known (c := c) hfind).1, ok_bind] at hopen
      obtain ⟨items, -, hopened⟩ := bind_eq_ok hopen
      cases (Prod.mk.inj (Except.ok.inj hopened)).1
    | none =>
      cases hok : c.kmallocOk with
      | true =>
        obtain ⟨s₁, hlook, -⟩ := hinv.new hfind hok
        simp only [hlook, ok_bind] at hopen
        obtain ⟨items, -, hopened⟩ := bind_eq_ok hopen
        cases (Prod.mk.inj (Except.ok.inj hopened)).1
      | false =>
        simp only [CloneList.lookforDevice_refused hfind hok, ok_bind] at hopen
        refine ⟨(CloneEvent.returned.inj (Prod.mk.inj (Except.ok.inj hopen)).1).symm, rfl,
          fun d hmem => ?_⟩
        have hknown := (Registry.replay_find hreplay).2 _ hmem k d rfl
        rw [hinv.find, hfind] at hknown
        cases hknown

/-- Two terminals get devices, and the second open at the first one needs no memory. -/
example :
    let readWrite : FMode := ⟨true, true⟩
    (CloneList.empty.run [⟨some 1, readWrite, true, .default⟩, ⟨some 2, readWrite, true, .default⟩,
      ⟨some 1, ⟨false, true⟩, false, .default⟩, ⟨some 3, readWrite, false, .default⟩,
      ⟨none, readWrite, true, .default⟩]).toOption.map (·.1) =
        some [.opened 1 0, .opened 2 1, .opened 1 0, .returned (-ENOMEM), .returned (-EINVAL)] := by
  decide

end Clone

end AesdChar.Scull

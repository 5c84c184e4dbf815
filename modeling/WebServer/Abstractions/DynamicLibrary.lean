import WebServer.Library.Ownership
import WebServer.Library.Runs
import WebServer.Runtime.Bytes

/-!
# Dynamic libraries

A `DynamicLibrary` owns a handle through a `unique_ptr` that does not close it; `Load` and the
destructor close it by a call of `Unload`, and the assignment does not.

* `DynamicLibrary.load`, `DynamicLibrary.unload`, … — the functions of the class.
* `Process.step` — what they do to the objects of a process.
* `Process.closedOnce_iff` — when every handle is closed exactly once.
-/

namespace WebServer

/-! ## The class -/

/-- What `dlopen` returns.  The same library opened twice has the same pointer, so that a ghost
says which opening it is, and of which file. -/
structure Handle where
  pointer : ℕ
  opening : ℕ
  file : ByteString
  deriving DecidableEq

/-- The calls of `dlopen` that gave a handle and those of `dlclose`, in order. -/
structure Loader where
  opened : List Handle
  closed : List Handle
  deriving DecidableEq

namespace Loader

/-- `dlopen` of a file, which gives a pointer or null. -/
def dlopen (l : Loader) (file : ByteString) (answer : Option ℕ) : Option Handle × Loader :=
  let handle := answer.map fun pointer => ⟨pointer, l.opened.length, file⟩
  (handle, { l with opened := l.opened ++ handle.toList })

/-- `dlclose`. -/
def dlclose (l : Loader) (handle : Handle) : Loader := { l with closed := l.closed ++ [handle] }

end Loader

structure DynamicLibraryImpl where
  libraryHandle : Option Handle
  deriving DecidableEq

/-- `DynamicLibraryImpl::GetDynamicLibraryFileExtension`. -/
def DynamicLibraryImpl.getDynamicLibraryFileExtension : ByteString := bytes "dylib"

structure DynamicLibrary where
  impl : Option DynamicLibraryImpl
  deriving DecidableEq

namespace DynamicLibrary

/-- The constructor. -/
def new : DynamicLibrary := ⟨some ⟨none⟩⟩

/-- The handle that the object holds. -/
def handle (d : DynamicLibrary) : Option Handle := d.impl.bind DynamicLibraryImpl.libraryHandle

/-- `Unload`, which must not be called on an object that was moved from. -/
def unload (d : DynamicLibrary) (l : Loader) : Option (DynamicLibrary × Loader) :=
  match d.impl with
  | none => none
  | some impl =>
    match impl.libraryHandle with
    | none => some (d, l)
    | some handle => some (⟨some ⟨none⟩⟩, l.dlclose handle)

/-- `"%s/lib%s.%s"`. -/
def file (path name : ByteString) : ByteString :=
  cString path ++ bytes "/lib" ++ cString name ++ bytes "." ++
    cString DynamicLibraryImpl.getDynamicLibraryFileExtension

/-- `Load`, when `dlopen` gives a certain answer. -/
def load (d : DynamicLibrary) (l : Loader) (path name : ByteString) (answer : Option ℕ) :
    Option (Bool × DynamicLibrary × Loader) :=
  (d.unload l).map fun (_, l) =>
    let (handle, l) := l.dlopen (file path name) answer
    (handle.isSome, ⟨some ⟨handle⟩⟩, l)

/-- The destructor. -/
def destroy (d : DynamicLibrary) (l : Loader) : Option Loader :=
  if d.impl = none then some l else (d.unload l).map Prod.snd

/-- The move constructor: the new object, and what is left of the other one. -/
def moveConstruct (other : DynamicLibrary) : DynamicLibrary × DynamicLibrary :=
  (⟨other.impl⟩, ⟨none⟩)

/-- The move assignment: both objects.  The `unique_ptr` deletes what the first one had, and the
handle in it with it. -/
def moveAssign (_d other : DynamicLibrary) : DynamicLibrary × DynamicLibrary :=
  (⟨other.impl⟩, ⟨none⟩)

/-! ## What the functions do -/

/-- After `Unload` the object holds nothing, and what it held is closed. -/
theorem unload_eq {d d' : DynamicLibrary} {l l' : Loader} (h : d.unload l = some (d', l')) :
    d'.handle = none ∧ l' = { l with closed := l.closed ++ d.handle.toList } := by
  obtain ⟨_ | ⟨_ | handle⟩⟩ := d
  · cases h
  · cases h
    exact ⟨rfl, by rw [show handle ⟨some ⟨none⟩⟩ = none from rfl, Option.toList_none,
      List.append_nil]⟩
  · cases h
    exact ⟨rfl, rfl⟩

/-- `Load` closes what the object held, whatever `dlopen` answers. -/
theorem load_eq {d d' : DynamicLibrary} {l l' : Loader} {path name : ByteString}
    {answer : Option ℕ} {loaded : Bool} (h : d.load l path name answer = some (loaded, d', l')) :
    d'.handle = (l.dlopen (file path name) answer).1 ∧ loaded = d'.handle.isSome ∧
      l' = ⟨l.opened ++ d'.handle.toList, l.closed ++ d.handle.toList⟩ := by
  obtain ⟨⟨d₀, l₀⟩, hunload, hload⟩ := Option.map_eq_some_iff.1 h
  obtain ⟨-, rfl⟩ := unload_eq hunload
  cases hload
  exact ⟨rfl, rfl, rfl⟩

/-- The destructor closes what the object holds. -/
theorem destroy_eq {d : DynamicLibrary} {l l' : Loader} (h : d.destroy l = some l') :
    l' = { l with closed := l.closed ++ d.handle.toList } := by
  unfold destroy at h
  split_ifs at h with himpl
  · rw [← Option.some.inj h, handle, himpl, Option.bind_none, Option.toList_none, List.append_nil]
  · obtain ⟨⟨d', l₀⟩, hunload, hl₀⟩ := Option.map_eq_some_iff.1 h
    rw [← hl₀]
    exact (unload_eq hunload).2

end DynamicLibrary

/-! ## The objects of a process -/

/-- The objects, under their addresses. -/
structure Process where
  objects : ℕ → Option DynamicLibrary
  loader : Loader

/-- The operations on the objects. -/
inductive LibraryEvent
  | construct (o : ℕ)
  | load (o : ℕ) (path name : ByteString) (answer : Option ℕ)
  | unload (o : ℕ)
  | moveConstruct (o other : ℕ)
  | moveAssign (o other : ℕ)
  | destroy (o : ℕ)

namespace Process

open Ownership Ledger

/-- Before the first operation. -/
def start : Process := ⟨fun _ => none, ⟨[], []⟩⟩

/-- The handle that is held at an address. -/
def handle (p : Process) (o : ℕ) : Option Handle := (p.objects o).bind DynamicLibrary.handle

/-- An object changes, or appears, or disappears. -/
def put (p : Process) (o : ℕ) (d : Option DynamicLibrary) (l : Loader) : Process :=
  ⟨Function.update p.objects o d, l⟩

/-- An operation, if it can be made: its objects are alive, a new one has an address of its own,
and the object an assignment is made to is not the one it is made from, as the assertion says. -/
def step (p : Process) : LibraryEvent → Option Process
  | .construct o =>
    match p.objects o with
    | none => some (p.put o (some .new) p.loader)
    | some _ => none
  | .load o path name answer =>
    (p.objects o).bind fun d =>
      (d.load p.loader path name answer).map fun (_, d, l) => p.put o (some d) l
  | .unload o =>
    (p.objects o).bind fun d => (d.unload p.loader).map fun (d, l) => p.put o (some d) l
  | .moveConstruct o other =>
    match p.objects o with
    | none =>
      (p.objects other).map fun d =>
        (p.put o (some d.moveConstruct.1) p.loader).put other (some d.moveConstruct.2) p.loader
    | some _ => none
  | .moveAssign o other =>
    if o = other then none
    else
      (p.objects o).bind fun d => (p.objects other).map fun d' =>
        (p.put o (some (d.moveAssign d').1) p.loader).put other (some (d.moveAssign d').2) p.loader
  | .destroy o =>
    (p.objects o).bind fun d => (d.destroy p.loader).map fun l => p.put o none l

/-! ## Ownership -/

/-- Who holds which handle. -/
def ledger (p : Process) : Ledger ℕ Handle := ⟨p.handle, p.loader.opened, p.loader.closed⟩

/-- What an operation is for. -/
def effect (l : Ledger ℕ Handle) : LibraryEvent → Ledger ℕ Handle
  | .construct _ => l
  | .load o path name answer => (l.release o).acquire o
      (answer.map fun pointer => ⟨pointer, l.opened.length, DynamicLibrary.file path name⟩)
  | .unload o => l.release o
  | .moveConstruct o other => l.pass other o
  | .moveAssign o other => l.pass other o
  | .destroy o => l.release o

theorem handle_put (p : Process) (o : ℕ) (d : Option DynamicLibrary) (l : Loader) :
    (p.put o d l).handle = Function.update p.handle o (d.bind DynamicLibrary.handle) := by
  funext k
  show (Function.update p.objects o d k).bind _ = Function.update p.handle o _ k
  rw [Function.update_apply, Function.update_apply, apply_ite (Option.bind · _)]
  rfl

theorem ledger_put (p : Process) (o : ℕ) (d : Option DynamicLibrary) (l : Loader) :
    (p.put o d l).ledger =
      ⟨Function.update p.handle o (d.bind DynamicLibrary.handle), l.opened, l.closed⟩ := by
  rw [ledger, handle_put]
  rfl

/-- What an object at an address holds. -/
theorem handle_of_objects {p : Process} {o : ℕ} {d : DynamicLibrary}
    (h : p.objects o = some d) : p.handle o = d.handle := by
  rw [handle, h, Option.bind_some]

/-- A moved object is at the new address, and holds nothing at the old one. -/
theorem ledger_move {p : Process} {o other : ℕ} {d : DynamicLibrary}
    (h : p.objects other = some d) :
    ((p.put o (some ⟨d.impl⟩) p.loader).put other (some ⟨none⟩) p.loader).ledger =
      p.ledger.pass other o := by
  rw [ledger_put, handle_put]
  show (⟨Function.update (Function.update p.handle o d.handle) other none, _, _⟩ :
    Ledger ℕ Handle) = ⟨Function.update (Function.update p.handle o (p.handle other)) other none,
      _, _⟩
  rw [handle_of_objects h]
  rfl

/-- **Every operation does to the handles what it is for.** -/
theorem ledger_step {p p' : Process} {e : LibraryEvent} (h : p.step e = some p') :
    p'.ledger = effect p.ledger e := by
  cases e with
  | construct o =>
    simp only [step] at h
    cases ho : p.objects o with
    | some d => simp [ho] at h
    | none =>
      rw [ho] at h
      rw [← Option.some.inj h, ledger_put]
      have hnone : p.handle o = none := by rw [handle, ho, Option.bind_none]
      show (⟨Function.update p.handle o none, _, _⟩ : Ledger ℕ Handle) = p.ledger
      rw [← hnone, Function.update_eq_self]
      rfl
  | load o path name answer =>
    obtain ⟨d, ho, h⟩ := Option.bind_eq_some_iff.1 h
    obtain ⟨⟨loaded, d', l'⟩, hload, h⟩ := Option.map_eq_some_iff.1 h
    obtain ⟨hd', -, rfl⟩ := d.load_eq hload
    rw [← h, ledger_put, Option.bind_some, hd', ← handle_of_objects ho]
    simp only [effect, acquire, release, Function.update_idem]
    rfl
  | unload o =>
    obtain ⟨d, ho, h⟩ := Option.bind_eq_some_iff.1 h
    obtain ⟨⟨d', l'⟩, hunload, h⟩ := Option.map_eq_some_iff.1 h
    obtain ⟨hd', rfl⟩ := d.unload_eq hunload
    rw [← h, ledger_put, Option.bind_some, hd', ← handle_of_objects ho]
    rfl
  | moveConstruct o other =>
    simp only [step] at h
    cases ho : p.objects o with
    | some d => simp [ho] at h
    | none =>
      rw [ho] at h
      obtain ⟨d, hother, h⟩ := Option.map_eq_some_iff.1 h
      rw [← h]
      exact ledger_move hother
  | moveAssign o other =>
    simp only [step] at h
    split_ifs at h with hne
    obtain ⟨d, -, h⟩ := Option.bind_eq_some_iff.1 h
    obtain ⟨d', hother, h⟩ := Option.map_eq_some_iff.1 h
    rw [← h]
    exact ledger_move hother
  | destroy o =>
    obtain ⟨d, ho, h⟩ := Option.bind_eq_some_iff.1 h
    obtain ⟨l', hdestroy, h⟩ := Option.map_eq_some_iff.1 h
    rw [← h, ledger_put, Option.bind_none, d.destroy_eq hdestroy, ← handle_of_objects ho]
    rfl

/-- The handles are numbered by their openings. -/
def Numbered (p : Process) : Prop := ∀ h ∈ p.loader.opened, h.opening < p.loader.opened.length

theorem numbered_step {p p' : Process} {e : LibraryEvent} (hp : p.Numbered)
    (h : p.step e = some p') : p'.Numbered := by
  have hopened : p'.loader.opened = (effect p.ledger e).opened :=
    congrArg Ledger.opened (ledger_step h)
  unfold Numbered
  rw [hopened]
  cases e with
  | load o path name answer =>
    intro x hx
    rcases List.mem_append.1 hx with hx | hx
    · exact (hp x hx).trans_le (List.length_append ▸ Nat.le_add_right _ _)
    · obtain ⟨pointer, rfl, rfl⟩ := Option.map_eq_some_iff.1 (Option.mem_toList.1 hx)
      show p.loader.opened.length < (p.loader.opened ++ [_]).length
      rw [List.length_append]
      exact Nat.lt_succ_self _
  | _ => exact hp

/-- An object that holds a handle is assigned to. -/
def overwrites (p : Process) : LibraryEvent → Bool
  | .moveAssign o _ => (p.handle o).isSome
  | _ => false

/-- Every other operation keeps the handles owned. -/
theorem balanced_step {p p' : Process} {e : LibraryEvent} (hp : p.ledger.Balanced)
    (hn : p.Numbered) (h : p.step e = some p') (he : p.overwrites e = false) :
    p'.ledger.Balanced := by
  rw [ledger_step h]
  cases e with
  | construct o => exact hp
  | load o path name answer =>
    refine balanced_acquire (balanced_release hp o) (Function.update_self ..) fun x hx hold => ?_
    obtain ⟨pointer, -, rfl⟩ := Option.map_eq_some_iff.1 hx
    exact lt_irrefl _ (hn _ hold)
  | unload o => exact balanced_release hp o
  | moveConstruct o other =>
    refine balanced_pass hp ?_
    cases ho : p.objects o with
    | none => exact congrArg (Option.bind · _) ho
    | some d => simp [step, ho] at h
  | moveAssign o other =>
    exact balanced_pass hp (Option.isNone_iff_eq_none.1 (Option.isSome_eq_false_iff.1 he))
  | destroy o => exact balanced_release hp o

/-- Assigned to, such an object loses its handle. -/
theorem not_balanced_step {p p' : Process} {e : LibraryEvent} (hp : p.ledger.Balanced)
    (h : p.step e = some p') (he : p.overwrites e = true) : ¬ p'.ledger.Balanced := by
  rw [ledger_step h]
  cases e with
  | moveAssign o other =>
    obtain ⟨handle, hhandle⟩ := Option.isSome_iff_exists.1 he
    refine not_balanced_pass hp ?_ hhandle
    rintro rfl
    simp [step] at h
  | _ => cases he

/-- **When every handle is closed exactly once**: no object that holds one is assigned to. -/
theorem closedOnce_iff (r : Runs.Run step start) :
    Runs.Along step (fun p => p.ledger.Balanced) start r.events ↔
      Runs.Allowed step (fun p e => p.overwrites e = false) start r.events := by
  refine Runs.along_iff_allowed (I := fun p => p.ledger.Balanced ∧ p.Numbered)
    ⟨Ledger.balanced_empty, fun h hh => absurd hh List.not_mem_nil⟩ (fun _ hp => hp.1) ?_ ?_ r
  · intro p e p' hp h he
    exact ⟨balanced_step hp.1 hp.2 h he, numbered_step hp.2 h⟩
  · intro p e p' hp h he
    exact not_balanced_step hp.1 h (by simpa using he)

/-- A library is loaded, and its object is assigned to. -/
def losing : Runs.Run step start where
  events := [.construct 0, .construct 1, .load 0 (bytes "/") (bytes "a") (some 1),
    .moveAssign 0 1]
  possible := rfl

/-- Its handle is open, and held by none of the two objects. -/
theorem not_closedOnce :
    ¬ Runs.Along step (fun p => p.ledger.Balanced) start losing.events := by
  intro h
  have hlast := h losing.events _ List.prefix_rfl rfl
  obtain ⟨o, ho⟩ := (hlast.outstanding ⟨1, 0, bytes "//liba.dylib"⟩).1 (by decide)
  rcases o with _ | _ | o
  · exact absurd ho (by decide)
  · exact absurd ho (by decide)
  · cases ho

end Process

end WebServer

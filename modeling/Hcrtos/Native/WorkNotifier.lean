import Hcrtos.Native.WorkQueue

/-!
# Work notifications

`kwork_notifier.c` for notifications that are local, one-shot and served by the high-priority
queue, which is what every caller asks for. An entry is a number; `malloc` returns the next one,
and no entry is ever given back to the heap.

Interrupts are enabled between the critical sections of `work_notifier_setup`, and while
`work_notifier_worker` runs the function it was given, so the parts of these two are operations
of their own.
-/

namespace Hcrtos.Native

/-- The fields of `struct work_notifier_s` that tell one notification from another. -/
structure NotifierInfo where
  evtype : Nat
  qualifier : Nat
  arg : Nat

/-- `struct work_notifier_entry_s` without its work structure. -/
structure NotifierEntry where
  info : NotifierInfo
  key : UInt32

/-- The worker of a notification that was signalled. -/
inductive NotifierWorker where
  | work_notifier_worker

/-- The entries, the lists that link them, and the static counter of `work_notifier_key`. -/
structure WorkNotifier where
  entries : Nat → NotifierEntry
  g_notifier_free : List Nat
  g_notifier_pending : List Nat
  g_hpwork : WorkQueue Nat NotifierWorker Nat
  notifier_key : UInt32
  /-- The number of entries that `malloc` returned. -/
  allocated : Nat

namespace WorkNotifier

def ENOENT : Int := 2

def init : WorkNotifier := ⟨fun _ => ⟨⟨0, 0, 0⟩, 0⟩, [], [], .empty, 0, 0⟩

def key (s : WorkNotifier) (e : Nat) : UInt32 := (s.entries e).key

def info (s : WorkNotifier) (e : Nat) : NotifierInfo := (s.entries e).info

/-- `work_notifier_find`: the first pending entry with the key. -/
def work_notifier_find (s : WorkNotifier) (key : UInt32) : Option Nat :=
  s.g_notifier_pending.find? fun e => s.key e = key

/-- `work_notifier_key`. -/
def work_notifier_key (s : WorkNotifier) : UInt32 :=
  if s.notifier_key + 1 = 0 then 1 else s.notifier_key + 1

/-- The entry is cleared, its work structure with it, and gets the caller's description. -/
def initEntry (s : WorkNotifier) (e : Nat) (info : NotifierInfo) : WorkNotifier :=
  { s with
    entries := Function.update s.entries e ⟨info, 0⟩
    g_hpwork := { s.g_hpwork with works := Function.update s.g_hpwork.works e Work.zero } }

/-- `work_notifier_setup` up to its second critical section: the first free entry whose work is
    available, or a new one. -/
def setupEntry (s : WorkNotifier) (info : NotifierInfo) (mallocOk : Bool) :
    Option (Nat × WorkNotifier) :=
  match s.g_notifier_free.find? s.g_hpwork.work_available with
  | some e =>
    some (e, { s with g_notifier_free := s.g_notifier_free.erase e }.initEntry e info)
  | none =>
    if mallocOk then
      some (s.allocated, { s with allocated := s.allocated + 1 }.initEntry s.allocated info)
    else none

/-- A key as the `int` that `work_notifier_setup` returns. -/
def keyInt (key : UInt32) : Int := key.toInt32.toInt

/-- The second critical section of `work_notifier_setup`, and its result. -/
def setupLink (s : WorkNotifier) (e : Nat) : WorkNotifier × Int :=
  let key := s.work_notifier_key
  ({ s with
      entries := Function.update s.entries e { s.entries e with key := key }
      g_notifier_pending := s.g_notifier_pending ++ [e]
      notifier_key := key },
    keyInt key)

/-- `work_notifier_teardown`. -/
def work_notifier_teardown (s : WorkNotifier) (key : Int) : WorkNotifier × Int :=
  match s.work_notifier_find (Int32.ofInt key).toUInt32 with
  | none => (s, -ENOENT)
  | some e =>
    ({ s with
        g_notifier_pending := s.g_notifier_pending.erase e
        g_notifier_free := s.g_notifier_free ++ [e] }, 0)

/-- The loop of `work_notifier_signal` over the pending list. -/
def signalLoop (entries : Nat → NotifierEntry) (evtype qualifier : Nat) :
    List Nat → WorkQueue Nat NotifierWorker Nat → List Nat × WorkQueue Nat NotifierWorker Nat
  | [], hpwork => ([], hpwork)
  | e :: rest, hpwork =>
    if (entries e).info.evtype = evtype ∧ (entries e).info.qualifier = qualifier then
      signalLoop entries evtype qualifier rest (hpwork.work_qqueue e .work_notifier_worker e 0)
    else
      let (pending, hpwork) := signalLoop entries evtype qualifier rest hpwork
      (e :: pending, hpwork)

/-- `work_notifier_signal`. -/
def work_notifier_signal (s : WorkNotifier) (evtype qualifier : Nat) : WorkNotifier :=
  let (pending, hpwork) :=
    signalLoop s.entries evtype qualifier s.g_notifier_pending s.g_hpwork
  { s with g_notifier_pending := pending, g_hpwork := hpwork }

/-- `work_process` takes the work at the head of the queue, which is ready, and calls
    `work_notifier_worker` for its entry. -/
def startWork (s : WorkNotifier) : Option (Nat × WorkNotifier) :=
  match s.g_hpwork.q with
  | [] => none
  | work :: _ =>
    match s.g_hpwork.take work with
    | some (.work_notifier_worker, some e, hpwork) => some (e, { s with g_hpwork := hpwork })
    | _ => none

/-- The end of `work_notifier_worker`: the entry goes to the free list. -/
def recycle (s : WorkNotifier) (e : Nat) : WorkNotifier :=
  { s with g_notifier_free := s.g_notifier_free ++ [e] }

/-- `work_process` after its worker returned. -/
def finishWork (s : WorkNotifier) (e : Nat) : WorkNotifier :=
  { s with g_hpwork := s.g_hpwork.finish e }

end WorkNotifier

end Hcrtos.Native

import OsrmNutiteq.Osmium.ParserTask

/-! # The reader and the parser task, interleaved

`XMLInputFormat` serves `read()` and `header()` from what the parser task hands over: buffers
through `m_queue`, the header through `m_header_promise`, the way the task ended through
`m_parser_future`. A schedule says which thread moves next; a thread that must wait does not.
-/
namespace OsrmNutiteq.Osmium

/-- `m_parser_future`: not ready, ready with how the task ended, or already read by `get()`
(after which it is no longer `valid()`). -/
inductive FutureState where
  | pending
  | ready (result : TaskEnd)
  | retrieved
  deriving DecidableEq, Repr

inductive ReadError where
  /-- The task's exception, rethrown by `get()`. -/
  | task (e : ParseError)
  /-- `std::future_error`: `get_future()` called a second time. -/
  | futureAlreadyRetrieved
  deriving DecidableEq, Repr

inductive Call where
  | read | header
  deriving DecidableEq, Repr

/-- Where a call is: `read()` before its pop and before its check; `header()` before its
check, before `get_future()` and waiting in `get()`. -/
inductive CallStep where
  | readPop
  | readCheck (b : Buffer)
  | headerCheck
  | headerGetFuture
  | headerWait
  deriving DecidableEq, Repr

inductive CallResult where
  | readReturned (b : Buffer)
  | headerReturned (h : Header)
  | raised (call : Call) (e : ReadError)
  /-- `close()` returned, or rethrew the task's exception from `get()`. -/
  | closeReturned
  | closeRaised (e : ParseError)
  deriving DecidableEq, Repr

def CallResult.isHeaderReturned : CallResult → Bool
  | .headerReturned _ => true
  | _ => false

inductive Thread where
  | task | reader
  deriving DecidableEq, Repr

structure System where
  queue : List Buffer
  promise : Option Header
  future : FutureState
  /-- Whether `m_header_promise.get_future()` has been called. -/
  headerRetrieved : Bool
  /-- What the task has still to do. -/
  task : List TaskAction
  /-- The reader's calls not yet begun, and the one under way. -/
  calls : List Call
  current : Option CallStep
  results : List CallResult
  /-- The buffers taken from the queue so far, in order (kept for the statements: the code
  drops those of a `read()` that raises). -/
  popped : List Buffer
  deriving DecidableEq, Repr

namespace System

/-- Right after the constructor: the task about to run `actions`, the reader about to make
`calls`. -/
def start (actions : List TaskAction) (calls : List Call) : System :=
  ⟨[], none, .pending, false, actions, calls, none, [], []⟩

/-- `check_for_exception(m_parser_future)`: the exception, if the future is ready with one,
and the future after the check. -/
def checkForException : FutureState → Option ParseError × FutureState
  | .ready (.raised e) => (some e, .retrieved)
  | .ready .returned => (none, .retrieved)
  | f => (none, f)

/-- `max_queue_size`, the bound `m_queue` is built with: `push` waits while the queue holds
that many buffers. -/
def maxQueueSize : Nat := 100

def taskStep (s : System) : System :=
  match s.task with
  | [] => s
  | .push b :: rest =>
    if s.queue.length < maxQueueSize then { s with queue := s.queue ++ [b], task := rest } else s
  | .setHeader h :: rest => { s with promise := some h, task := rest }
  | .finish r :: rest => { s with future := .ready r, task := rest }

/-- Whether the task waits in `push` on a full queue. -/
def pushWaits (s : System) : Bool :=
  match s.task with
  | .push _ :: _ => maxQueueSize ≤ s.queue.length
  | _ => false

/-- One atomic step of the reader; waiting in `wait_and_pop` or in `get()` changes nothing. -/
def readerStep (s : System) : System :=
  match s.current with
  | none =>
    match s.calls with
    | [] => s
    | .read :: cs => { s with calls := cs, current := some .readPop }
    | .header :: cs => { s with calls := cs, current := some .headerCheck }
  | some .readPop =>
    match s.queue with
    | [] => s
    | b :: qs => { s with queue := qs, current := some (.readCheck b), popped := s.popped ++ [b] }
  | some (.readCheck b) =>
    match checkForException s.future with
    | (some e, f) => { s with future := f, current := none, results := s.results ++ [.raised .read (.task e)] }
    | (none, f) => { s with future := f, current := none, results := s.results ++ [.readReturned b] }
  | some .headerCheck =>
    match checkForException s.future with
    | (some e, f) =>
      { s with future := f, current := none, results := s.results ++ [.raised .header (.task e)] }
    | (none, f) => { s with future := f, current := some .headerGetFuture }
  | some .headerGetFuture =>
    if s.headerRetrieved then
      { s with current := none, results := s.results ++ [.raised .header .futureAlreadyRetrieved] }
    else { s with headerRetrieved := true, current := some .headerWait }
  | some .headerWait =>
    match s.promise with
    | none => s
    | some h => { s with current := none, results := s.results ++ [.headerReturned h] }

def step (s : System) : Thread → System
  | .task => s.taskStep
  | .reader => s.readerStep

def exec (s : System) (schedule : List Thread) : System := schedule.foldl step s

@[simp] theorem exec_nil (s : System) : s.exec [] = s := rfl

@[simp] theorem exec_cons (s : System) (t : Thread) (ts : List Thread) :
    s.exec (t :: ts) = (s.step t).exec ts := rfl

theorem exec_append_reader (s : System) (schedule : List Thread) :
    s.exec (schedule ++ [.reader]) = (s.exec schedule).readerStep := by
  simp only [exec, List.foldl_append, List.foldl_cons, List.foldl_nil, step]

theorem exec_induction (P : System → Prop) (htask : ∀ s, P s → P s.taskStep)
    (hreader : ∀ s, P s → P s.readerStep) {s : System} (h : P s) (schedule : List Thread) :
    P (s.exec schedule) := by
  induction schedule generalizing s with
  | nil => exact h
  | cons t ts ih =>
    cases t
    · exact ih (htask s h)
    · exact ih (hreader s h)

/-! ## The queue hands over the pushed buffers in order -/

/-- What the reader has taken and what still waits in the queue are, together, what the task
has pushed so far. -/
def Fifo (actions : List TaskAction) (s : System) : Prop :=
  ∃ done, actions = done ++ s.task ∧ s.popped ++ s.queue = pushes done

theorem taskStep_fifo {actions : List TaskAction} {s : System} (h : Fifo actions s) :
    Fifo actions s.taskStep := by
  obtain ⟨done, hd, hq⟩ := h
  unfold taskStep
  split
  next => exact ⟨done, hd, hq⟩
  next b rest heq =>
    split
    · exact ⟨done ++ [.push b], by simp [hd, heq], by simp [← hq]⟩
    · exact ⟨done, hd, hq⟩
  next h rest heq => exact ⟨done ++ [.setHeader h], by simp [hd, heq], by simpa using hq⟩
  next r rest heq => exact ⟨done ++ [.finish r], by simp [hd, heq], by simpa using hq⟩

theorem readerStep_fifo {actions : List TaskAction} {s : System} (h : Fifo actions s) :
    Fifo actions s.readerStep := by
  obtain ⟨done, hd, hq⟩ := h
  unfold readerStep
  split
  · split <;> exact ⟨done, hd, hq⟩
  · split
    · exact ⟨done, hd, hq⟩
    · rename_i b qs heq
      exact ⟨done, hd, by rw [← hq, heq]; simp⟩
  · split <;> exact ⟨done, hd, hq⟩
  · split <;> exact ⟨done, hd, hq⟩
  · split <;> exact ⟨done, hd, hq⟩
  · split <;> exact ⟨done, hd, hq⟩

/-- Under every schedule the reader takes exactly the buffers the task pushed, in the order
it pushed them, none lost or repeated: what it has taken, followed by what is left in the
queue, is what the task has pushed so far. -/
theorem exec_fifo (actions : List TaskAction) (calls : List Call) (schedule : List Thread) :
    Fifo actions ((start actions calls).exec schedule) :=
  exec_induction (Fifo actions) (fun _ => taskStep_fifo) (fun _ => readerStep_fifo)
    (show Fifo actions (start actions calls) from ⟨[], rfl, rfl⟩) schedule

theorem popped_all_of_end {bs popped rest : List Buffer} (hbs : ∀ b ∈ bs, b.committed ≠ [])
    (h : popped ++ rest = bs ++ [Buffer.empty]) (he : Buffer.empty ∈ popped) :
    popped = bs ++ [Buffer.empty] ∧ rest = [] := by
  have hne : Buffer.empty ∉ bs := fun hm => hbs _ hm rfl
  rcases List.append_eq_append_iff.mp h with ⟨a, hb, -⟩ | ⟨c, hp, hc⟩
  · exact absurd (hb ▸ List.mem_append_left a he) hne
  · rcases c with _ | ⟨z, c⟩
    · obtain rfl : popped = bs := by simpa using hp
      exact absurd he hne
    · simp only [List.cons_append, List.cons.injEq] at hc
      obtain ⟨rfl, hc⟩ := hc
      obtain ⟨rfl, rfl⟩ := List.append_eq_nil.mp hc.symm
      exact ⟨hp, rfl⟩

/-- When the task's pushes are buffers holding data and then the empty buffer, a reader that
has taken the empty buffer has taken every push, and nothing is left in the queue. -/
theorem exec_popped_all {actions : List TaskAction} {bs : List Buffer}
    (hbs : pushes actions = bs ++ [Buffer.empty]) (hne : ∀ b ∈ bs, b.committed ≠ [])
    (calls : List Call) (schedule : List Thread)
    (he : Buffer.empty ∈ ((start actions calls).exec schedule).popped) :
    ((start actions calls).exec schedule).popped = pushes actions ∧
      ((start actions calls).exec schedule).queue = [] := by
  obtain ⟨done, hd, hq⟩ := exec_fifo actions calls schedule
  set s := (start actions calls).exec schedule
  have hall : s.popped ++ (s.queue ++ pushes s.task) = bs ++ [Buffer.empty] := by
    rw [← List.append_assoc, hq, ← pushes_append, ← hd, hbs]
  obtain ⟨hp, hr⟩ := popped_all_of_end hne hall he
  exact ⟨hp.trans hbs.symm, (List.append_eq_nil.mp hr).1⟩

/-! ## One header, handed over once -/

/-- A header the reader has been handed, or that waits in the promise, is one the task set;
and `get_future()`, which succeeds once, stands before every `header()` that has returned a
header or waits in `get()`. -/
def HeaderInv (actions : List TaskAction) (s : System) : Prop :=
  (∃ done, actions = done ++ s.task ∧
    ∀ h, (.headerReturned h ∈ s.results ∨ s.promise = some h) → .setHeader h ∈ done) ∧
  s.results.countP CallResult.isHeaderReturned + (if s.current = some .headerWait then 1 else 0) ≤
    if s.headerRetrieved then 1 else 0

theorem taskStep_headerInv {actions : List TaskAction} {s : System} (h : HeaderInv actions s) :
    HeaderInv actions s.taskStep := by
  obtain ⟨⟨done, hd, hset⟩, hcount⟩ := h
  unfold taskStep
  split
  next => exact ⟨⟨done, hd, hset⟩, hcount⟩
  next b rest heq =>
    split
    · exact ⟨⟨done ++ [.push b], by simp [hd, heq], fun h hh => by simp [hset h hh]⟩, hcount⟩
    · exact ⟨⟨done, hd, hset⟩, hcount⟩
  next h' rest heq =>
    refine ⟨⟨done ++ [.setHeader h'], by simp [hd, heq], fun h hh => ?_⟩, hcount⟩
    rcases hh with hh | hh
    · simp [hset h (.inl hh)]
    · simp_all
  next r rest heq =>
    exact ⟨⟨done ++ [.finish r], by simp [hd, heq], fun h hh => by simp [hset h hh]⟩, hcount⟩

theorem readerStep_headerInv {actions : List TaskAction} {s : System} (h : HeaderInv actions s) :
    HeaderInv actions s.readerStep := by
  obtain ⟨⟨done, hd, hset⟩, hcount⟩ := h
  unfold readerStep
  split <;> (try split) <;>
    simp_all [HeaderInv, List.countP_append, CallResult.isHeaderReturned]
  -- `get()` hands over the header in the promise
  rintro h ((hh | rfl) | rfl) <;> simp_all

/-- Under every schedule at most one `header()` call returns a header, and it returns one the
task set; once one has, every later `header()` that reaches `get_future()` raises
`future_error` there. -/
theorem exec_header_returned_once (actions : List TaskAction) (calls : List Call)
    (schedule : List Thread) :
    ((start actions calls).exec schedule).results.countP CallResult.isHeaderReturned ≤ 1 ∧
      (∀ h, CallResult.headerReturned h ∈ ((start actions calls).exec schedule).results →
        TaskAction.setHeader h ∈ actions) ∧
      ((∃ h, CallResult.headerReturned h ∈ ((start actions calls).exec schedule).results) →
        ((start actions calls).exec schedule).current = some .headerGetFuture →
        ((start actions calls).exec (schedule ++ [.reader])).results =
          ((start actions calls).exec schedule).results ++
            [.raised .header .futureAlreadyRetrieved]) := by
  have h0 : HeaderInv actions (start actions calls) := ⟨⟨[], rfl, by simp [start]⟩, by simp [start]⟩
  obtain ⟨⟨done, hd, hset⟩, hcount⟩ :=
    exec_induction (HeaderInv actions) (fun _ => taskStep_headerInv) (fun _ => readerStep_headerInv)
      h0 schedule
  refine ⟨?_, fun h hh => hd ▸ List.mem_append_left _ (hset h (.inl hh)), fun ⟨h, hh⟩ hcur => ?_⟩
  · split at hcount <;> split at hcount <;> omega
  -- a returned header means `get_future()` has been called
  have hpos : 0 < ((start actions calls).exec schedule).results.countP CallResult.isHeaderReturned :=
    List.countP_pos_iff.mpr ⟨_, hh, rfl⟩
  have hret : ((start actions calls).exec schedule).headerRetrieved = true := by
    by_contra hf
    rw [if_neg hf] at hcount
    omega
  rw [exec_append_reader]
  simp only [readerStep, hcur, hret, if_true]

/-! ## A header is served once the task has ended -/

def PromiseInv (actions : List TaskAction) (s : System) : Prop :=
  ∃ done, actions = done ++ s.task ∧ (s.promise.isSome ↔ 0 < headerSets done)

theorem taskStep_promiseInv {actions : List TaskAction} {s : System} (h : PromiseInv actions s) :
    PromiseInv actions s.taskStep := by
  obtain ⟨done, hd, hp⟩ := h
  unfold taskStep
  split
  next => exact ⟨done, hd, hp⟩
  next b rest heq =>
    split
    · exact ⟨done ++ [.push b], by simp [hd, heq], by simpa using hp⟩
    · exact ⟨done, hd, hp⟩
  next h' rest heq => exact ⟨done ++ [.setHeader h'], by simp [hd, heq], by simp⟩
  next r rest heq => exact ⟨done ++ [.finish r], by simp [hd, heq], by simpa using hp⟩

theorem readerStep_task_promise (s : System) :
    s.readerStep.task = s.task ∧ s.readerStep.promise = s.promise := by
  unfold readerStep
  split <;> (try split) <;> exact ⟨rfl, rfl⟩

theorem readerStep_promiseInv {actions : List TaskAction} {s : System} (h : PromiseInv actions s) :
    PromiseInv actions s.readerStep := by
  rw [PromiseInv, (readerStep_task_promise s).1, (readerStep_task_promise s).2]
  exact h

/-- Once the task has ended and done all it does, a `header()` waiting in `get()` returns
at its next step: the promise keeper has set the header, however the task ended. -/
theorem header_served_after_task (needsFlush : Buffer → Bool) (readTypes : Nat)
    (chunks : List (Chunk × Bool))
    (hend : ∃ r, TaskAction.finish r ∈ Parser.task needsFlush readTypes chunks)
    (calls : List Call) (schedule : List Thread)
    (hrun : ((start (Parser.task needsFlush readTypes chunks) calls).exec schedule).task = [])
    (hwait : ((start (Parser.task needsFlush readTypes chunks) calls).exec schedule).current =
      some .headerWait) :
    ∃ h, ((start (Parser.task needsFlush readTypes chunks) calls).exec (schedule ++ [.reader])).results =
      ((start (Parser.task needsFlush readTypes chunks) calls).exec schedule).results ++
        [.headerReturned h] := by
  have h0 : PromiseInv (Parser.task needsFlush readTypes chunks)
      (start (Parser.task needsFlush readTypes chunks) calls) := ⟨[], rfl, by simp [start]⟩
  obtain ⟨done, hd, hp⟩ := exec_induction (PromiseInv (Parser.task needsFlush readTypes chunks))
    (fun _ => taskStep_promiseInv) (fun _ => readerStep_promiseInv) h0 schedule
  rw [hrun, List.append_nil] at hd
  have hsets : headerSets done = 1 := by
    simpa [← hd] using
      (Parser.taskLoop_headerSets needsFlush (Parser.init readTypes) false chunks).2 hend
  obtain ⟨h, hh⟩ := Option.isSome_iff_exists.mp (hp.mpr (by omega))
  rw [exec_append_reader]
  exact ⟨h, by simp only [readerStep, hwait, hh]⟩

end System

def badVersionChunks : List (Chunk × Bool) :=
  [(⟨true, [.startElement "osm" [("version", "0.5")]], none⟩, false)]

/-- The reader asks for the header, then reads; the task pushes and hands over the header
in between, and its exception reaches the future last. -/
def missedSchedule : List Thread :=
  [.reader, .reader, .reader, .task, .task, .reader, .reader, .reader, .reader, .task]

/-- On `badVersionChunks`, with `header()` waiting in `get()` before the task runs to its end,
the waiting call is served next. -/
theorem header_served_after_task_bad_version :
    (∃ r, TaskAction.finish r ∈ Parser.task (fun _ => false) 1 badVersionChunks) ∧
      ((System.start (Parser.task (fun _ => false) 1 badVersionChunks) [.header]).exec
        [.reader, .reader, .reader, .task, .task, .task]).task = [] ∧
      ((System.start (Parser.task (fun _ => false) 1 badVersionChunks) [.header]).exec
        [.reader, .reader, .reader, .task, .task, .task]).current = some .headerWait ∧
      ∃ h, ((System.start (Parser.task (fun _ => false) 1 badVersionChunks) [.header]).exec
        ([.reader, .reader, .reader, .task, .task, .task] ++ [.reader])).results =
        ((System.start (Parser.task (fun _ => false) 1 badVersionChunks) [.header]).exec
          [.reader, .reader, .reader, .task, .task, .task]).results ++ [.headerReturned h] :=
  have hend : ∃ r, TaskAction.finish r ∈ Parser.task (fun _ => false) 1 badVersionChunks :=
    ⟨.raised (.formatVersion (some "0.5")), by decide⟩
  have hrun : ((System.start (Parser.task (fun _ => false) 1 badVersionChunks) [.header]).exec
      [.reader, .reader, .reader, .task, .task, .task]).task = [] := by decide
  have hwait : ((System.start (Parser.task (fun _ => false) 1 badVersionChunks) [.header]).exec
      [.reader, .reader, .reader, .task, .task, .task]).current = some .headerWait := by decide
  ⟨hend, hrun, hwait, System.header_served_after_task (fun _ => false) 1 badVersionChunks hend
    [.header] [.reader, .reader, .reader, .task, .task, .task] hrun hwait⟩

/-- On `badVersionChunks` the task raises `format_version_error`, yet under `missedSchedule`
`header()` returns a header and `read()` returns the empty end-of-data buffer, neither
raising: the reader is shown a normally ended input. -/
theorem exception_missed_schedule :
    TaskAction.finish (.raised (.formatVersion (some "0.5"))) ∈
        Parser.task (fun _ => false) 1 badVersionChunks ∧
      ∃ h, ((System.start (Parser.task (fun _ => false) 1 badVersionChunks) [.header, .read]).exec
        missedSchedule).results = [.headerReturned h, .readReturned Buffer.empty] :=
  ⟨by decide, _, rfl⟩

end OsrmNutiteq.Osmium

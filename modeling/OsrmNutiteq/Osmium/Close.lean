import OsrmNutiteq.Osmium.InputFormat

/-! # `close()` and `m_done`

`close()` sets `m_done` and calls `wait_until_done`, whose `get()` waits for the task's future,
rethrows its exception and consumes it. Here the task runs one pass at a time, reading `m_done`
after each pass that did not end it, next to the reader's `read()`, `header()` and `close()`.
-/
namespace OsrmNutiteq.Osmium

namespace Parser
section Passes
variable (needsFlush : Buffer → Bool)

/-- What follows the loop of `operator()` when it stops normally: push what is still
committed, then the empty buffer, and let the promise keeper's destructor set the header if
nothing has. -/
def ending (q : Parser) (kept : Bool) : List TaskAction :=
  (if q.buffer.committed ≠ [] then [.push q.buffer] else []) ++ .push Buffer.empty ::
    (fulfil kept q.header ++ [.finish .returned])

/-- One pass of the loop of `operator()` on chunk `c`, up to its test `!last && !m_done`: the
actions, and the parser and promise state the loop goes on from, or `none` when the pass ends
the task (an exception, or the last chunk, for which `m_done` is not read). -/
def chunkPass (p : Parser) (kept : Bool) (c : Chunk) : List TaskAction × Option (Parser × Bool) :=
  match p.parseChunk needsFlush c with
  | (q, some err) =>
    ((q.queue.drop p.queue.length).map .push ++
      if err = .parserIsDone then fulfil kept q.header ++ [.finish .returned]
      else .push Buffer.empty :: (fulfil kept q.header ++ [.finish (.raised err)]), none)
  | (q, none) =>
    ((q.queue.drop p.queue.length).map .push ++
      ((if q.headerDone then fulfil kept q.header else []) ++
        if c.empty then ending q (kept || q.headerDone) else []),
      if c.empty then none else some (q, kept || q.headerDone))

theorem taskLoop_cons (p : Parser) (kept : Bool) (c : Chunk) (done : Bool)
    (rest : List (Chunk × Bool)) :
    p.taskLoop needsFlush kept ((c, done) :: rest) =
      (p.chunkPass needsFlush kept c).1 ++
        match (p.chunkPass needsFlush kept c).2 with
        | none => []
        | some (q, k) => if done then ending q k else q.taskLoop needsFlush k rest := by
  rw [taskLoop, chunkPass]
  rcases p.parseChunk needsFlush c with ⟨q, _ | err⟩
  · by_cases he : c.empty
    · simp [he, ending]
    · cases done <;> simp [he, ending]
  · simp

def NoFinish (l : List TaskAction) : Prop := ∀ r, TaskAction.finish r ∉ l

/-- Whether a list of the task's actions ends the task at its last action, and only there. -/
def EndsTask (l : List TaskAction) : Prop := ∃ xs r, l = xs ++ [.finish r] ∧ NoFinish xs

@[simp] theorem noFinish_nil : NoFinish [] := fun _ => List.not_mem_nil _

@[simp] theorem noFinish_append {l₁ l₂ : List TaskAction} :
    NoFinish (l₁ ++ l₂) ↔ NoFinish l₁ ∧ NoFinish l₂ := by
  simp only [NoFinish, List.mem_append, not_or, forall_and]

@[simp] theorem noFinish_cons {a : TaskAction} {l : List TaskAction} :
    NoFinish (a :: l) ↔ (∀ r, a ≠ .finish r) ∧ NoFinish l := by
  simp only [NoFinish, List.mem_cons, not_or, forall_and, ne_comm]

@[simp] theorem noFinish_map_push (bs : List Buffer) : NoFinish (bs.map .push) := fun r => by simp

@[simp] theorem noFinish_drop_map_push (bs : List Buffer) (n : Nat) :
    NoFinish ((bs.map .push).drop n) := fun r h => by simpa using List.mem_of_mem_drop h

@[simp] theorem noFinish_fulfil (kept : Bool) (h : Header) : NoFinish (fulfil kept h) := by
  unfold fulfil; split <;> simp

theorem ending_endsTask (q : Parser) (kept : Bool) : EndsTask (ending q kept) :=
  ⟨(if q.buffer.committed ≠ [] then [.push q.buffer] else []) ++ .push Buffer.empty ::
      fulfil kept q.header, .returned, by simp [ending], by split <;> simp⟩

theorem chunkPass_shape (p : Parser) (kept : Bool) (c : Chunk) :
    (∃ q k, (p.chunkPass needsFlush kept c).2 = some (q, k) ∧
      NoFinish (p.chunkPass needsFlush kept c).1) ∨
    ((p.chunkPass needsFlush kept c).2 = none ∧ EndsTask (p.chunkPass needsFlush kept c).1) := by
  rw [chunkPass]
  rcases p.parseChunk needsFlush c with ⟨q, _ | err⟩
  · dsimp only
    by_cases he : c.empty
    · obtain ⟨xs, r, hxs, hno⟩ := ending_endsTask q (kept || q.headerDone)
      refine .inr ⟨by simp [he], (q.queue.map .push).drop p.queue.length ++
        ((if q.headerDone then fulfil kept q.header else []) ++ xs), r, by simp [he, hxs], ?_⟩
      simp only [noFinish_append, noFinish_drop_map_push, hno, and_true, true_and]
      split <;> simp
    · refine .inl ⟨q, kept || q.headerDone, by simp [he], ?_⟩
      simp only [he, if_false, Bool.false_eq_true, List.append_nil, noFinish_append,
        noFinish_drop_map_push, true_and]
      split <;> simp
  · dsimp only
    refine .inr ⟨rfl, ?_⟩
    split
    · exact ⟨_, .returned, (List.append_assoc _ _ _).symm, by simp⟩
    · exact ⟨(q.queue.map .push).drop p.queue.length ++ .push Buffer.empty :: fulfil kept q.header,
        .raised err, by simp, by simp⟩

end Passes
end Parser

namespace System

theorem taskStep_cons {s : System} {a : TaskAction} {rest : List TaskAction}
    (h : s.task = a :: rest) (hw : s.pushWaits = false) :
    s.taskStep.task = rest ∧ s.taskStep.popped ++ s.taskStep.queue = s.popped ++ s.queue ++ pushes [a] ∧
      (s.taskStep.future = .pending ↔ s.future = .pending ∧ ∀ r, a ≠ .finish r) := by
  unfold pushWaits at hw
  unfold taskStep
  rw [h] at hw ⊢
  cases a with
  | push b =>
    have hlt : s.queue.length < maxQueueSize := by simpa using hw
    simp [hlt]
  | setHeader _ => simp
  | finish _ => simp

@[simp] theorem taskStep_current (s : System) : s.taskStep.current = s.current := by
  unfold taskStep
  split <;> (try split) <;> rfl

theorem checkForException_pending (f : FutureState) :
    (checkForException f).2 = .pending ↔ f = .pending := by
  rcases f with _ | (_ | _) | _ <;> simp [checkForException]

theorem readerStep_frame (s : System) :
    s.readerStep.task = s.task ∧ s.readerStep.popped ++ s.readerStep.queue = s.popped ++ s.queue ∧
      (s.readerStep.future = .pending ↔ s.future = .pending) := by
  have key : ∀ e f, checkForException s.future = (e, f) → (f = .pending ↔ s.future = .pending) :=
    fun e f h => by rw [← checkForException_pending s.future, h]
  unfold readerStep
  split <;> (try split) <;> simp_all

end System

inductive Op where
  | call (c : Call)
  | close
  deriving DecidableEq, Repr

/-- Where the parser task is between the actions it hands over: about to pop a chunk, about
to test `m_done` after a pass that did not end it, or in its last pass. -/
inductive TaskPhase where
  | pop (p : Parser) (kept : Bool)
  | test (p : Parser) (kept : Bool)
  | ended
  deriving DecidableEq, Repr

/-- What the task has still to do after its current pass, when from here on it reads the
values `fs` of `m_done`. -/
def TaskPhase.rest (needsFlush : Buffer → Bool) :
    TaskPhase → List Chunk → List Bool → List TaskAction
  | .pop p kept, input, fs => p.taskLoop needsFlush kept (input.zip fs)
  | .test q kept, input, d :: fs =>
    if d then Parser.ending q kept else q.taskLoop needsFlush kept (input.zip fs)
  | .test _ _, _, [] => []
  | .ended, _, _ => []

/-- `XMLInputFormat` with `close()`. -/
structure XmlInputFormat where
  /-- The queue, the promise, the future and the reader's `read()` and `header()`, as in
  `System`; its `task` holds what the current pass has still to hand over. -/
  sys : System
  /-- `m_done`. -/
  done : Bool
  phase : TaskPhase
  /-- The chunks still in `m_input_queue`. -/
  input : List Chunk
  /-- The reader's operations not yet begun, and whether it waits in `close()`. -/
  ops : List Op
  closing : Bool
  /-- Kept for the statements: the actions handed over, the chunks taken, the values of
  `m_done` the task read, and how many chunks it had taken when `close()` set `m_done`. -/
  performed : List TaskAction
  taken : List Chunk
  doneRead : List Bool
  takenAtClose : Option Nat
  deriving DecidableEq, Repr

namespace XmlInputFormat

/-- Right after the constructor, with the input `chunks` and the reader about to do `ops`. -/
def start (readTypes : Nat) (chunks : List Chunk) (ops : List Op) : XmlInputFormat :=
  ⟨System.start [] [], false, .pop (Parser.init readTypes) false, chunks, ops, false, [], [], [],
    none⟩

/-- One atomic step of the task: hand over the next action of the pass, or pop a chunk and
run a pass on it (waiting while `m_input_queue` is empty), or test `m_done`. -/
def taskStep (needsFlush : Buffer → Bool) (s : XmlInputFormat) : XmlInputFormat :=
  match s.sys.task with
  | a :: _ => if s.sys.pushWaits then s else { s with sys := s.sys.taskStep, performed := s.performed ++ [a] }
  | [] =>
    match s.phase with
    | .pop p kept =>
      match s.input with
      | [] => s
      | c :: cs =>
        { s with sys := { s.sys with task := (p.chunkPass needsFlush kept c).1 }, input := cs,
                 taken := s.taken ++ [c],
                 phase := match (p.chunkPass needsFlush kept c).2 with
                   | some (q, k) => .test q k
                   | none => .ended }
    | .test q kept =>
      if s.done then
        { s with sys := { s.sys with task := Parser.ending q kept }, phase := .ended,
                 doneRead := s.doneRead ++ [true] }
      else { s with phase := .pop q kept, doneRead := s.doneRead ++ [false] }
    | .ended => s

/-- `osmium::thread::wait_until_done` on a future that is no longer pending: `get()` on a valid
future consumes it and rethrows its exception, and a consumed future is left alone. What
`close()` ends with, and the future after. -/
def waitUntilDone (f : FutureState) : CallResult × FutureState :=
  match System.checkForException f with
  | (some e, f) => (.closeRaised e, f)
  | (none, f) => (.closeReturned, f)

theorem waitUntilDone_pending (f : FutureState) :
    (waitUntilDone f).2 = .pending ↔ f = .pending := by
  rw [← System.checkForException_pending f, waitUntilDone]
  split <;> simp_all

/-- One atomic step of the reader. `read()` skips its pop when `m_done` is set and the queue
is empty, and returns the empty buffer it started with; `close()` sets `m_done`, then, while the
future is valid, waits in `get()` until it is ready, consumes it and rethrows its exception. -/
def readerStep (s : XmlInputFormat) : XmlInputFormat :=
  match s.sys.current with
  | some .readPop =>
    if s.done ∧ s.sys.queue = [] then
      { s with sys := { s.sys with current := some (.readCheck Buffer.empty) } }
    else { s with sys := s.sys.readerStep }
  | some _ => { s with sys := s.sys.readerStep }
  | none =>
    if s.closing then
      if s.sys.future = .pending then s
      else
        { s with closing := false,
                 sys := { s.sys with future := (waitUntilDone s.sys.future).2,
                                     results := s.sys.results ++ [(waitUntilDone s.sys.future).1] } }
    else
      match s.ops with
      | [] => s
      | .call .read :: os => { s with ops := os, sys := { s.sys with current := some .readPop } }
      | .call .header :: os =>
        { s with ops := os, sys := { s.sys with current := some .headerCheck } }
      | .close :: os =>
        { s with ops := os, done := true, closing := true,
                 takenAtClose := if s.done then s.takenAtClose else some s.taken.length }

def step (needsFlush : Buffer → Bool) (s : XmlInputFormat) : Thread → XmlInputFormat
  | .task => s.taskStep needsFlush
  | .reader => s.readerStep

def exec (needsFlush : Buffer → Bool) (s : XmlInputFormat) (schedule : List Thread) :
    XmlInputFormat :=
  schedule.foldl (step needsFlush) s

theorem exec_induction (needsFlush : Buffer → Bool) (P : XmlInputFormat → Prop)
    (htask : ∀ s, P s → P (s.taskStep needsFlush)) (hreader : ∀ s, P s → P s.readerStep)
    {s : XmlInputFormat} (h : P s) (schedule : List Thread) : P (s.exec needsFlush schedule) := by
  induction schedule generalizing s with
  | nil => exact h
  | cons t ts ih =>
    cases t
    · exact ih (htask s h)
    · exact ih (hreader s h)

/-! ## The task replays `Parser.task` -/

section Replays
variable (needsFlush : Buffer → Bool) (readTypes : Nat) (chunks : List Chunk)

/-- The task has taken the first chunks of `chunks`, read `m_done` once after each pass that
did not end it, and handed over the first actions of `Parser.task` for the values it read,
whatever values it reads from here on; it has ended exactly when its future is ready, and
the reader has taken its pushes in order. -/
structure Replays (s : XmlInputFormat) : Prop where
  input : s.taken ++ s.input = chunks
  doneRead_pop : ∀ p k, s.phase = .pop p k → s.doneRead.length = s.taken.length
  doneRead_test : ∀ p k, s.phase = .test p k → s.doneRead.length + 1 = s.taken.length
  actions : ∀ fs : List Bool, chunks.length ≤ s.doneRead.length + fs.length →
    s.performed ++ s.sys.task ++ s.phase.rest needsFlush s.input fs =
      Parser.task needsFlush readTypes (chunks.zip (s.doneRead ++ fs))
  shape : (s.phase ≠ .ended ∧ Parser.NoFinish (s.performed ++ s.sys.task)) ∨
    (s.phase = .ended ∧ Parser.EndsTask (s.performed ++ s.sys.task))
  future : s.sys.future = .pending ↔ Parser.NoFinish s.performed
  fifo : s.sys.popped ++ s.sys.queue = pushes s.performed

theorem start_replays (ops : List Op) :
    Replays needsFlush readTypes chunks (start readTypes chunks ops) where
  input := rfl
  doneRead_pop := fun _ _ _ => rfl
  doneRead_test := fun _ _ h => by cases h
  actions := fun _ _ => rfl
  shape := .inl ⟨by simp [start], by simp [start, System.start]⟩
  future := by simp [start, System.start]
  fifo := rfl

theorem Replays.of_sys {s s' : XmlInputFormat} (h : Replays needsFlush readTypes chunks s)
    (htask : s'.sys.task = s.sys.task)
    (hq : s'.sys.popped ++ s'.sys.queue = s.sys.popped ++ s.sys.queue)
    (hf : s'.sys.future = .pending ↔ s.sys.future = .pending) (hp : s'.performed = s.performed)
    (hph : s'.phase = s.phase) (hi : s'.input = s.input) (ht : s'.taken = s.taken)
    (hd : s'.doneRead = s.doneRead) : Replays needsFlush readTypes chunks s' where
  input := by rw [ht, hi]; exact h.input
  doneRead_pop := fun p k e => by rw [hd, ht]; exact h.doneRead_pop p k (hph ▸ e)
  doneRead_test := fun p k e => by rw [hd, ht]; exact h.doneRead_test p k (hph ▸ e)
  actions := fun fs hl => by rw [hp, htask, hph, hi, hd]; exact h.actions fs (hd ▸ hl)
  shape := by rw [hp, htask, hph]; exact h.shape
  future := by rw [hf, hp]; exact h.future
  fifo := by rw [hq, hp]; exact h.fifo

theorem readerStep_replays {s : XmlInputFormat} (h : Replays needsFlush readTypes chunks s) :
    Replays needsFlush readTypes chunks s.readerStep := by
  obtain ⟨ht, hq, hf⟩ := System.readerStep_frame s.sys
  unfold readerStep
  split
  · split
    · exact h.of_sys needsFlush readTypes chunks rfl rfl Iff.rfl rfl rfl rfl rfl rfl
    · exact h.of_sys needsFlush readTypes chunks ht hq hf rfl rfl rfl rfl rfl
  · exact h.of_sys needsFlush readTypes chunks ht hq hf rfl rfl rfl rfl rfl
  · split
    · split
      · exact h
      · exact h.of_sys needsFlush readTypes chunks rfl rfl (waitUntilDone_pending _) rfl rfl rfl
          rfl rfl
    · split <;> exact h.of_sys needsFlush readTypes chunks rfl rfl Iff.rfl rfl rfl rfl rfl rfl

theorem Replays.handOver {s : XmlInputFormat} (h : Replays needsFlush readTypes chunks s)
    {a : TaskAction} {rest : List TaskAction} (htask : s.sys.task = a :: rest)
    (hw : s.sys.pushWaits = false) :
    Replays needsFlush readTypes chunks
      { s with sys := s.sys.taskStep, performed := s.performed ++ [a] } := by
  obtain ⟨ht, hq, hf⟩ := System.taskStep_cons htask hw
  have hsame : s.performed ++ [a] ++ s.sys.taskStep.task = s.performed ++ s.sys.task := by
    rw [ht, htask, List.append_assoc, List.singleton_append]
  refine ⟨h.input, h.doneRead_pop, h.doneRead_test, fun fs hl => ?_, ?_, ?_, ?_⟩
  · rw [hsame]
    exact h.actions fs hl
  · rw [hsame]
    exact h.shape
  · rw [hf, h.future, Parser.noFinish_append, Parser.noFinish_cons]
    simp
  · rw [hq, h.fifo, pushes_append]

theorem Replays.noFinish_of_task_nil {s : XmlInputFormat} (h : Replays needsFlush readTypes chunks s)
    (htask : s.sys.task = []) (hph : s.phase ≠ .ended) : Parser.NoFinish s.performed := by
  rcases h.shape with ⟨-, hn⟩ | ⟨he, -⟩
  · simpa [htask] using hn
  · exact absurd he hph

theorem Replays.pass {s : XmlInputFormat} (h : Replays needsFlush readTypes chunks s)
    (htask : s.sys.task = []) {p : Parser} {kept : Bool} (hph : s.phase = .pop p kept)
    {c : Chunk} {cs : List Chunk} (hin : s.input = c :: cs) :
    Replays needsFlush readTypes chunks
      { s with sys := { s.sys with task := (p.chunkPass needsFlush kept c).1 }, input := cs,
               taken := s.taken ++ [c],
               phase := match (p.chunkPass needsFlush kept c).2 with
                 | some (q, k) => .test q k
                 | none => .ended } := by
  have hlen := h.doneRead_pop p kept hph
  have hno := h.noFinish_of_task_nil needsFlush readTypes chunks htask (by rw [hph]; nofun)
  have hinput : s.taken ++ [c] ++ cs = chunks := by
    rw [List.append_assoc, List.singleton_append, ← hin]; exact h.input
  -- the values of `m_done` still to be read include the one after this pass
  have hrun : ∀ fs : List Bool, chunks.length ≤ s.doneRead.length + fs.length →
      ∃ d fs', fs = d :: fs' ∧ s.performed ++ (p.chunkPass needsFlush kept c).1 ++
        (match (p.chunkPass needsFlush kept c).2 with
          | none => []
          | some (q, k) => if d then Parser.ending q k else q.taskLoop needsFlush k (cs.zip fs')) =
        Parser.task needsFlush readTypes (chunks.zip (s.doneRead ++ fs)) := by
    intro fs hl
    obtain ⟨d, fs', rfl⟩ : ∃ d fs', fs = d :: fs' := by
      cases fs with
      | nil => simp only [← hinput, List.length_append, List.length_singleton,
          List.length_nil] at hl; omega
      | cons d fs' => exact ⟨d, fs', rfl⟩
    refine ⟨d, fs', rfl, ?_⟩
    have := h.actions (d :: fs') hl
    rw [htask, hph, hin, TaskPhase.rest, List.zip_cons_cons, Parser.taskLoop_cons,
      List.append_nil] at this
    rw [List.append_assoc, this]
  rcases Parser.chunkPass_shape needsFlush p kept c with ⟨q, k, hsome, hpass⟩ | ⟨hnone, hpass⟩
  · -- the loop goes on: next it tests `m_done`
    simp only [hsome]
    refine ⟨hinput, (fun _ _ e => by cases e), (fun _ _ _ => by simp [hlen]), (fun fs hl => ?_),
      .inl ⟨by simp, by simpa using ⟨hno, hpass⟩⟩, h.future, h.fifo⟩
    obtain ⟨d, fs', rfl, hr⟩ := hrun fs hl
    rwa [hsome] at hr
  · -- the pass ends the task
    simp only [hnone]
    obtain ⟨xs, r, hxs, hxno⟩ := hpass
    refine ⟨hinput, (fun _ _ e => by cases e), (fun _ _ e => by cases e), (fun fs hl => ?_),
      .inr ⟨rfl, s.performed ++ xs, r, by simp [hxs], by simpa using ⟨hno, hxno⟩⟩, h.future,
      h.fifo⟩
    obtain ⟨d, fs', rfl, hr⟩ := hrun fs hl
    rwa [hnone] at hr

theorem Replays.test {s : XmlInputFormat} (h : Replays needsFlush readTypes chunks s)
    (htask : s.sys.task = []) {q : Parser} {kept : Bool} (hph : s.phase = .test q kept) :
    Replays needsFlush readTypes chunks
      (if s.done then
        { s with sys := { s.sys with task := Parser.ending q kept }, phase := .ended,
                 doneRead := s.doneRead ++ [true] }
      else { s with phase := .pop q kept, doneRead := s.doneRead ++ [false] }) := by
  have hlen := h.doneRead_test q kept hph
  have hno := h.noFinish_of_task_nil needsFlush readTypes chunks htask (by rw [hph]; nofun)
  have hread : ∀ d fs, chunks.length ≤ (s.doneRead ++ [d]).length + fs.length →
      s.performed ++ s.phase.rest needsFlush s.input (d :: fs) =
        Parser.task needsFlush readTypes (chunks.zip (s.doneRead ++ [d] ++ fs)) := by
    intro d fs hl
    have := h.actions (d :: fs) (by simpa [Nat.add_assoc, Nat.add_comm 1] using hl)
    rwa [htask, List.append_nil, ← List.singleton_append, ← List.append_assoc] at this
  split
  · refine ⟨h.input, (fun _ _ e => by cases e), (fun _ _ e => by cases e), (fun fs hl => ?_),
      .inr ⟨rfl, ?_⟩, h.future, h.fifo⟩
    · have := hread true fs hl
      rw [hph, TaskPhase.rest, if_pos rfl] at this
      simpa [TaskPhase.rest] using this
    · obtain ⟨xs, r, hxs, hxno⟩ := Parser.ending_endsTask q kept
      exact ⟨s.performed ++ xs, r, by simp [hxs], by simpa using ⟨hno, hxno⟩⟩
  · refine ⟨h.input, (fun _ _ _ => by simp [← hlen]), (fun _ _ e => by cases e),
      (fun fs hl => ?_), .inl ⟨by simp, by simpa [htask] using hno⟩, h.future, h.fifo⟩
    have := hread false fs hl
    rw [hph, TaskPhase.rest, if_neg Bool.false_ne_true] at this
    simpa [TaskPhase.rest, htask] using this

theorem taskStep_replays {s : XmlInputFormat} (h : Replays needsFlush readTypes chunks s) :
    Replays needsFlush readTypes chunks (s.taskStep needsFlush) := by
  unfold taskStep
  split
  next a rest htask =>
    split
    · exact h
    · next hw => exact h.handOver needsFlush readTypes chunks htask (by simpa using hw)
  next htask =>
    split
    next p kept hph =>
      split
      next => exact h
      next c cs hin => exact h.pass needsFlush readTypes chunks htask hph hin
    next q kept hph => exact h.test needsFlush readTypes chunks htask hph
    next => exact h

theorem replays_exec (ops : List Op) (schedule : List Thread) :
    Replays needsFlush readTypes chunks ((start readTypes chunks ops).exec needsFlush schedule) :=
  exec_induction needsFlush (Replays needsFlush readTypes chunks)
    (fun _ => taskStep_replays needsFlush readTypes chunks)
    (fun _ => readerStep_replays needsFlush readTypes chunks)
    (start_replays needsFlush readTypes chunks ops) schedule

theorem Replays.performed_eq_of_ready {s : XmlInputFormat}
    (h : Replays needsFlush readTypes chunks s) (hf : s.sys.future ≠ .pending) (fs : List Bool)
    (hl : chunks.length ≤ s.doneRead.length + fs.length) :
    s.performed = Parser.task needsFlush readTypes (chunks.zip (s.doneRead ++ fs)) := by
  -- a ready future means the task has handed over its `finish`, the last of its actions
  have hfin : ¬Parser.NoFinish s.performed := fun hn => hf (h.future.mpr hn)
  rcases h.shape with ⟨-, hn⟩ | ⟨hph, xs, r, hxs, hxno⟩
  · exact absurd (fun r hr => hn r (List.mem_append_left _ hr)) hfin
  have htask : s.sys.task = [] := by
    rcases List.eq_nil_or_concat s.sys.task with ht | ⟨l, b, ht⟩
    · exact ht
    · rw [ht, List.concat_eq_append, ← List.append_assoc] at hxs
      obtain ⟨hpre, -⟩ := List.append_inj' hxs rfl
      exact absurd (fun r hr => hxno r (hpre ▸ List.mem_append_left _ hr)) hfin
  have := h.actions fs hl
  rwa [htask, hph, TaskPhase.rest, List.append_nil, List.append_nil] at this

end Replays

/-- Under every schedule of the parser task with the reader's `read()`, `header()` and
`close()` calls, the reader has taken the task's pushes in the order they were made, none lost
or repeated, and the task has done what `Parser.task` does when each chunk comes with the value
of `m_done` the task really read after it (whatever the values for the chunks it has not yet
tested): a prefix of it while it runs, and all of it once its future is ready. -/
theorem exec_replays (needsFlush : Buffer → Bool) (readTypes : Nat) (chunks : List Chunk)
    (ops : List Op) (schedule : List Thread) :
    let s := (start readTypes chunks ops).exec needsFlush schedule
    s.sys.popped ++ s.sys.queue = pushes s.performed ∧
      ∀ fs : List Bool, chunks.length ≤ s.doneRead.length + fs.length →
        s.performed <+: Parser.task needsFlush readTypes (chunks.zip (s.doneRead ++ fs)) ∧
        (s.sys.future ≠ .pending →
          s.performed = Parser.task needsFlush readTypes (chunks.zip (s.doneRead ++ fs))) := by
  intro s
  have h := replays_exec needsFlush readTypes chunks ops schedule
  exact ⟨h.fifo, fun fs hl => ⟨⟨_, (List.append_assoc _ _ _).symm.trans (h.actions fs hl)⟩,
    fun hf => h.performed_eq_of_ready needsFlush readTypes chunks hf fs hl⟩⟩

/-! ## After `close()` -/

/-- Once `close()` has set `m_done` and returned, the task's future is ready. -/
def WaitInv (s : XmlInputFormat) : Prop :=
  s.done = true → s.closing = false → s.sys.future ≠ .pending

theorem taskStep_waitFrame (needsFlush : Buffer → Bool) (s : XmlInputFormat) :
    (s.taskStep needsFlush).done = s.done ∧ (s.taskStep needsFlush).closing = s.closing ∧
      (s.taskStep needsFlush).sys.current = s.sys.current ∧
      (s.sys.future ≠ .pending → (s.taskStep needsFlush).sys.future ≠ .pending) := by
  unfold taskStep
  split
  next a rest htask =>
    split
    · exact ⟨rfl, rfl, rfl, id⟩
    · next hw => exact ⟨rfl, rfl, System.taskStep_current _,
        fun h hp => h ((System.taskStep_cons htask (by simpa using hw)).2.2.mp hp).1⟩
  next =>
    split
    next => split <;> exact ⟨rfl, rfl, rfl, id⟩
    next => split <;> exact ⟨rfl, rfl, rfl, id⟩
    next => exact ⟨rfl, rfl, rfl, id⟩

theorem taskStep_waitInv (needsFlush : Buffer → Bool) {s : XmlInputFormat} (h : WaitInv s) :
    WaitInv (s.taskStep needsFlush) := by
  obtain ⟨hd, hc, -, hf⟩ := taskStep_waitFrame needsFlush s
  rw [WaitInv, hd, hc]
  exact fun hd hc => hf (h hd hc)

theorem readerStep_waitInv {s : XmlInputFormat} (h : WaitInv s) : WaitInv s.readerStep := by
  have hf := (System.readerStep_frame s.sys).2.2
  unfold readerStep
  split
  · split
    · exact h
    · exact fun hd hc => mt hf.mp (h hd hc)
  · exact fun hd hc => mt hf.mp (h hd hc)
  · split
    · -- `close()` returns only once the future is not pending
      split
      · exact h
      · next hp => exact fun _ _ => mt (waitUntilDone_pending _).mp hp
    · split <;> try exact h
      exact fun _ hc => Bool.noConfusion hc

/-- Under every schedule, once `close()` has set `m_done` and returned, the parser task has
ended and has handed over all it does: the whole of `Parser.task` for the values of `m_done`
it read, whatever the values for chunks it never tested. -/
theorem exec_close_waits_for_task (needsFlush : Buffer → Bool) (readTypes : Nat)
    (chunks : List Chunk) (ops : List Op) (schedule : List Thread)
    (hdone : ((start readTypes chunks ops).exec needsFlush schedule).done = true)
    (hclosed : ((start readTypes chunks ops).exec needsFlush schedule).closing = false) :
    ((start readTypes chunks ops).exec needsFlush schedule).sys.future ≠ .pending ∧
      ∀ fs : List Bool,
        chunks.length ≤ ((start readTypes chunks ops).exec needsFlush schedule).doneRead.length +
          fs.length →
        ((start readTypes chunks ops).exec needsFlush schedule).performed =
          Parser.task needsFlush readTypes
            (chunks.zip (((start readTypes chunks ops).exec needsFlush schedule).doneRead ++ fs)) := by
  have hw : WaitInv ((start readTypes chunks ops).exec needsFlush schedule) :=
    exec_induction needsFlush WaitInv (fun _ => taskStep_waitInv needsFlush)
      (fun _ => readerStep_waitInv) (fun e => (by cases e)) schedule
  have hf := hw hdone hclosed
  exact ⟨hf, (replays_exec needsFlush readTypes chunks ops schedule).performed_eq_of_ready
    needsFlush readTypes chunks hf⟩

/-- Three chunks, `close()` before the task starts: the task takes the first, reads `m_done`
set, pushes the empty buffer, sets the header and ends, and `close()` returns. -/
theorem exec_close_waits_for_task_first :
    ((start 1 [⟨false, [], none⟩, ⟨false, [], none⟩, ⟨true, [], none⟩] [.close]).exec
        (fun _ => false) [.reader, .task, .task, .task, .task, .task, .reader]).done = true ∧
      ((start 1 [⟨false, [], none⟩, ⟨false, [], none⟩, ⟨true, [], none⟩] [.close]).exec
        (fun _ => false) [.reader, .task, .task, .task, .task, .task, .reader]).closing = false ∧
      ((start 1 [⟨false, [], none⟩, ⟨false, [], none⟩, ⟨true, [], none⟩] [.close]).exec
        (fun _ => false) [.reader, .task, .task, .task, .task, .task, .reader]).sys.future ≠
        .pending :=
  ⟨rfl, rfl, (exec_close_waits_for_task (fun _ => false) 1
    [⟨false, [], none⟩, ⟨false, [], none⟩, ⟨true, [], none⟩] [.close]
    [.reader, .task, .task, .task, .task, .task, .reader] rfl rfl).1⟩

end XmlInputFormat

end OsrmNutiteq.Osmium

import OsrmNutiteq.Osmium.FlushRefinement

/-! # The parser task

`XMLParser::operator()` on its own thread: it pops chunks, hands each to Expat, and then
pushes what is still committed and the empty buffer that ends the data. `taskLoop` lists, in
order, what the task does that the reading thread can see.
-/
namespace OsrmNutiteq.Osmium
open Xml

/-- One chunk popped from the input queue: whether it is the empty string that ends the
input, the callbacks `XML_Parse` makes on it, and the line, column and message of the
error it then reports, if any. -/
structure Chunk where
  empty : Bool
  events : List Event
  expatError : Option (Nat × Nat × String)
  deriving DecidableEq, Repr

/-- How the task ends: `return true`, or an exception that leaves `operator()`. -/
inductive TaskEnd where
  | returned
  | raised (e : ParseError)
  deriving DecidableEq, Repr

/-- What the task does that the reading thread can see. -/
inductive TaskAction where
  /-- `m_queue.push(buffer)`. -/
  | push (b : Buffer)
  /-- `m_header_promise.set_value(m_header)`. -/
  | setHeader (h : Header)
  /-- The task returns or raises, and the future `std::async` handed out becomes ready. -/
  | finish (result : TaskEnd)
  deriving DecidableEq, Repr

def TaskAction.pushed : TaskAction → Option Buffer
  | .push b => some b
  | _ => none

def pushes (actions : List TaskAction) : List Buffer := actions.filterMap TaskAction.pushed

@[simp] theorem pushes_nil : pushes [] = [] := rfl

@[simp] theorem pushes_append (xs ys : List TaskAction) :
    pushes (xs ++ ys) = pushes xs ++ pushes ys := List.filterMap_append _ _ _

@[simp] theorem pushes_cons_push (b : Buffer) (xs : List TaskAction) :
    pushes (.push b :: xs) = b :: pushes xs := rfl

@[simp] theorem pushes_cons_setHeader (h : Header) (xs : List TaskAction) :
    pushes (.setHeader h :: xs) = pushes xs := rfl

@[simp] theorem pushes_cons_finish (r : TaskEnd) (xs : List TaskAction) :
    pushes (.finish r :: xs) = pushes xs := rfl

@[simp] theorem pushes_map_push (bs : List Buffer) : pushes (bs.map .push) = bs := by
  induction bs <;> simp_all

@[simp] theorem pushes_ite (c : Prop) [Decidable c] (xs ys : List TaskAction) :
    pushes (if c then xs else ys) = if c then pushes xs else pushes ys := by
  split <;> rfl

def TaskAction.isSetHeader : TaskAction → Bool
  | .setHeader _ => true
  | _ => false

def headerSets (actions : List TaskAction) : Nat := actions.countP TaskAction.isSetHeader

@[simp] theorem headerSets_nil : headerSets [] = 0 := rfl

@[simp] theorem headerSets_append (xs ys : List TaskAction) :
    headerSets (xs ++ ys) = headerSets xs + headerSets ys := List.countP_append _ _ _

@[simp] theorem headerSets_cons_push (b : Buffer) (xs : List TaskAction) :
    headerSets (.push b :: xs) = headerSets xs := rfl

@[simp] theorem headerSets_cons_setHeader (h : Header) (xs : List TaskAction) :
    headerSets (.setHeader h :: xs) = headerSets xs + 1 :=
  List.countP_cons_of_pos _ _ rfl

@[simp] theorem headerSets_cons_finish (r : TaskEnd) (xs : List TaskAction) :
    headerSets (.finish r :: xs) = headerSets xs := rfl

@[simp] theorem headerSets_map_push (bs : List Buffer) : headerSets (bs.map .push) = 0 := by
  induction bs <;> simp_all

@[simp] theorem headerSets_ite (c : Prop) [Decidable c] (xs ys : List TaskAction) :
    headerSets (if c then xs else ys) = if c then headerSets xs else headerSets ys := by
  split <;> rfl

def Context.holdsObject : Context → Bool
  | .node | .way | .relation | .changeset | .inObject => true
  | _ => false

@[simp] theorem ItemType.context_holdsObject (t : ItemType) : t.context.holdsObject = true := by
  cases t <;> rfl

/-- The callbacks read before the task stops, when none raises. -/
def eventsRead : List (Chunk × Bool) → List Event
  | [] => []
  | (c, done) :: rest => c.events ++ if c.empty || done then [] else eventsRead rest

namespace Parser

/-- `promise_keeper.fullfill_promise()`: the promise is set the first time only. -/
def fulfil (kept : Bool) (h : Header) : List TaskAction := if kept then [] else [.setHeader h]

@[simp] theorem pushes_fulfil (kept : Bool) (h : Header) : pushes (fulfil kept h) = [] := by
  unfold fulfil; split <;> rfl

@[simp] theorem finish_not_mem_fulfil (r : TaskEnd) (kept : Bool) (h : Header) :
    TaskAction.finish r ∉ fulfil kept h := by
  unfold fulfil; split <;> simp

@[simp] theorem headerSets_fulfil (kept : Bool) (h : Header) :
    headerSets (fulfil kept h) = if kept then 0 else 1 := by
  unfold fulfil; split <;> rfl

theorem finish_mem_continue {r : TaskEnd} {bs : List Buffer} {c kept : Bool} {h : Header}
    {xs : List TaskAction}
    (hr : TaskAction.finish r ∈ bs.map .push ++ ((if c then fulfil kept h else []) ++ xs)) :
    TaskAction.finish r ∈ xs := by
  simp only [List.mem_append, List.mem_map] at hr
  rcases hr with ⟨b, -, hb⟩ | hr | hr
  · cases hb
  · exact absurd hr (by split <;> simp)
  · exact hr

section Task
variable (needsFlush : Buffer → Bool)

/-- The header a callback that raises leaves behind: the `root` branch writes to it before
its checks throw, and no other callback that raises has written to it. -/
def raisedHeader (p : Parser) : Event → Header
  | .startElement element attrs =>
    if p.context = .root then (p.rootElement element attrs).1 else p.header
  | .endElement _ => p.header

/-- The callbacks up to the first that raises, with the state they leave. -/
def runUntilError (p : Parser) : List Event → Parser × Option ParseError
  | [] => (p, none)
  | e :: es =>
    match p.handle needsFlush e with
    | .ok q => q.runUntilError es
    | .error err => ({ p with header := p.raisedHeader e }, some err)

/-- `parser(data, last)`: the callbacks, then Expat's own error. -/
def parseChunk (p : Parser) (c : Chunk) : Parser × Option ParseError :=
  match p.runUntilError needsFlush c.events with
  | (q, some err) => (q, some err)
  | (q, none) => (q, c.expatError.map fun e => .expat e.1 e.2.1 e.2.2)

/-- The loop of `operator()` and what follows it, from state `p`; `kept` says whether the
promise keeper has set the header. Each chunk comes with the value of `m_done` read after
it. When the chunks run out the task is still waiting in `wait_and_pop`. -/
def taskLoop (p : Parser) (kept : Bool) : List (Chunk × Bool) → List TaskAction
  | [] => []
  | (c, done) :: rest =>
    match p.parseChunk needsFlush c with
    | (q, some err) =>
      (q.queue.drop p.queue.length).map .push ++
        if err = .parserIsDone then fulfil kept q.header ++ [.finish .returned]
        else .push Buffer.empty :: (fulfil kept q.header ++ [.finish (.raised err)])
    | (q, none) =>
      (q.queue.drop p.queue.length).map .push ++
        ((if q.headerDone then fulfil kept q.header else []) ++
          if c.empty || done then
            (if q.buffer.committed ≠ [] then [.push q.buffer] else []) ++ .push Buffer.empty ::
              (fulfil (kept || q.headerDone) q.header ++ [.finish .returned])
          else taskLoop q (kept || q.headerDone) rest)

/-- `XMLParser::operator()` as `XMLInputFormat`'s constructor starts it. -/
def task (readTypes : Nat) (chunks : List (Chunk × Bool)) : List TaskAction :=
  taskLoop needsFlush (init readTypes) false chunks

/-! ## The header promise -/

theorem taskLoop_headerSets (p : Parser) (kept : Bool) (chunks : List (Chunk × Bool)) :
    headerSets (p.taskLoop needsFlush kept chunks) ≤ (if kept then 0 else 1) ∧
      ((∃ r, TaskAction.finish r ∈ p.taskLoop needsFlush kept chunks) →
        headerSets (p.taskLoop needsFlush kept chunks) = if kept then 0 else 1) := by
  induction chunks generalizing p kept with
  | nil => simp [taskLoop]
  | cons cd rest ih =>
    obtain ⟨c, done⟩ := cd
    rcases hpc : p.parseChunk needsFlush c with ⟨q, r⟩
    cases r with
    | some err =>
      -- the promise keeper's destructor sets the header as the exception leaves
      have h : headerSets (p.taskLoop needsFlush kept ((c, done) :: rest)) =
          if kept then 0 else 1 := by
        simp only [taskLoop, hpc]
        generalize q.queue.drop p.queue.length = l
        split <;> simp
      exact ⟨h.le, fun _ => h⟩
    | none =>
      simp only [taskLoop, hpc]
      generalize q.queue.drop p.queue.length = l
      -- a header set on the way is one that `kept || m_header_is_done` keeps from being set again
      have hk : ((if q.headerDone then if kept then 0 else 1 else 0) +
          if kept || q.headerDone then 0 else 1) = if kept then 0 else 1 := by
        cases kept <;> cases q.headerDone <;> rfl
      by_cases hd : (c.empty || done) = true
      · simp only [hd, if_true, headerSets_append, headerSets_map_push, headerSets_ite,
          headerSets_fulfil, headerSets_nil, headerSets_cons_push, headerSets_cons_finish, ite_self]
        omega
      · simp only [hd, Bool.false_eq_true, if_false, headerSets_append, headerSets_map_push,
          headerSets_ite, headerSets_fulfil, headerSets_nil]
        obtain ⟨hle, heq⟩ := ih q (kept || q.headerDone)
        refine ⟨by omega, fun ⟨r, hr⟩ => ?_⟩
        have := heq ⟨r, finish_mem_continue hr⟩
        omega

/-- The promise keeper sets the header at most once however `operator()` runs, so
`set_value` is never called on a satisfied promise; and exactly once when the task returns
or raises, so a reader waiting for the header is served. -/
theorem task_sets_header_once (readTypes : Nat) (chunks : List (Chunk × Bool)) :
    headerSets (task needsFlush readTypes chunks) ≤ 1 ∧
      ((∃ r, TaskAction.finish r ∈ task needsFlush readTypes chunks) →
        headerSets (task needsFlush readTypes chunks) = 1) :=
  taskLoop_headerSets needsFlush (init readTypes) false chunks

end Task

/-! ## Which exceptions the callbacks raise

`ParserIsDone` comes only from `header_is_done()`, and only when nothing is to be read. -/

theorem rootAttributes_error {h : Header} {a : Attrs} {err : ParseError}
    (he : (rootAttributes h a).2 = some err) : err ≠ .parserIsDone := by
  induction a generalizing h with
  | nil => cases he
  | cons nv rest ih =>
    unfold rootAttributes at he
    split_ifs at he
    · cases he; simp
    all_goals exact ih he

theorem initObjectLoop_error {s : ObjectInit} {a : Attrs} {err : ParseError}
    (he : initObjectLoop s a = .error err) : err ≠ .parserIsDone := by
  induction a generalizing s with
  | nil => cases he
  | cons nv rest ih =>
    unfold initObjectLoop at he
    split_ifs at he
    · exact ih he
    · exact ih he
    · exact ih he
    · cases hs : setAttribute s.header nv.1 nv.2 with
      | error e =>
        rw [hs] at he
        cases he
        unfold setAttribute at hs
        split_ifs at hs
        cases hs
        simp
      | ok h => rw [hs] at he; exact ih he

theorem initObject_error {d : Bool} {t : ItemType} {a : Attrs} {err : ParseError}
    (he : initObject d t a = .error err) : err ≠ .parserIsDone := by
  unfold initObject at he
  cases hs : initObjectLoop ⟨⟨!d, "", [], []⟩, none, none, ""⟩ a with
  | error e => rw [hs] at he; cases he; exact initObjectLoop_error hs
  | ok s => rw [hs] at he; cases he

theorem rootElement_error {p : Parser} {element : String} {attrs : Attrs} {err : ParseError}
    (he : (p.rootElement element attrs).2 = some err) : err ≠ .parserIsDone := by
  unfold rootElement at he
  split at he
  · revert he
    generalize (if element = "osmChange" then { p.header with hasMultipleObjectVersions := true }
      else p.header) = h0
    intro he
    rcases hr : rootAttributes h0 attrs with ⟨h', _ | e⟩ <;> simp only [hr] at he
    · split at he <;> cases he
      simp
    · cases he
      exact rootAttributes_error (by rw [hr])
  · cases he; simp

theorem startElement_error {p : Parser} {element : String} {attrs : Attrs} {err : ParseError}
    (hrt : p.readTypes ≠ entityNothing) (he : p.startElement element attrs = .error err) :
    err ≠ .parserIsDone := by
  have hobj : ∀ t init, (∀ d e, init d = .error e → e ≠ .parserIsDone) →
      p.startObject t init = .error err → err ≠ .parserIsDone := fun t init hinit he => by
    rw [startObject, headerIsDone, if_neg hrt, except_ok_bind] at he
    split at he
    · rcases except_bind_eq_error he with hi | ⟨h, -, hh⟩
      · exact hinit _ _ hi
      · cases hh
    · cases he
  cases hc : p.context
  case root =>
    simp only [startElement, hc, startRoot] at he
    split at he
    next heq =>
      cases he
      exact rootElement_error (by rw [heq])
    next => cases he
  case top =>
    rcases startElement_top hc element attrs with ⟨t, ht⟩ | ht | ⟨hdr, d, ht⟩ <;> rw [ht] at he
    · exact hobj _ _ (fun _ _ => initObject_error) he
    · exact hobj _ _ (fun _ _ h => by cases h) he
    · cases he
  all_goals simp only [startElement, hc] at he; (try split at he) <;> cases he

section Flush
variable (needsFlush : Buffer → Bool)

theorem handle_error {p : Parser} {e : Event} {err : ParseError} (hrt : p.readTypes ≠ entityNothing)
    (he : p.handle needsFlush e = .error err) : err ≠ .parserIsDone := by
  cases e with
  | startElement element attrs => exact startElement_error hrt he
  | endElement element =>
    simp only [handle, endElement] at he
    split at he
    · cases he
    · split at he
      · rw [headerIsDone, if_neg hrt, except_ok_bind] at he; cases he
      · split at he <;> cases he
    all_goals cases he

end Flush

/-! ## What one callback does to the buffer and the queue -/

/-- The parser's state between callbacks: the kinds are read, an object that is being built
has its record pending, and every pushed buffer holds committed data. -/
structure TaskInv (p : Parser) : Prop where
  readTypes : p.readTypes ≠ entityNothing
  pending : p.context.holdsObject → p.buffer.pending ≠ []
  pushed : ∀ b ∈ p.queue, b.committed ≠ []

theorem appendToList_pending (p : Parser) (k : ListKind) (par : Option ItemType) (es : List Entry) :
    (p.appendToList k par es).readTypes = p.readTypes ∧
      ∃ rs, (p.appendToList k par es).buffer.pending = p.buffer.pending ++ rs := by
  rw [appendToList_eq]
  exact ⟨(setSubBuilder_eq p (some ((p.subBuilder k).getD ⟨par⟩)) k).2.2.2.2.2, _, rfl⟩

theorem checkTag_pending (p : Parser) (par : Option ItemType) (element : String) (attrs : Attrs) :
    (p.checkTag par element attrs).readTypes = p.readTypes ∧
      ∃ rs, (p.checkTag par element attrs).buffer.pending = p.buffer.pending ++ rs := by
  unfold checkTag
  split
  · exact appendToList_pending _ _ _ _
  · exact ⟨rfl, [], by simp⟩

theorem startElement_pending {p q : Parser} {element : String} {attrs : Attrs}
    (h : p.startElement element attrs = .ok q) :
    q.readTypes = p.readTypes ∧ ∃ rs, q.buffer.pending = p.buffer.pending ++ rs ∧
      (q.context.holdsObject → p.context.holdsObject ∨ rs ≠ []) := by
  have hin : ∀ r : Parser, r.readTypes = p.readTypes → (∃ rs, r.buffer.pending = p.buffer.pending ++ rs) →
      p.context.holdsObject →
      r.readTypes = p.readTypes ∧ ∃ rs, r.buffer.pending = p.buffer.pending ++ rs ∧
        (r.context.holdsObject → p.context.holdsObject ∨ rs ≠ []) :=
    fun r h1 ⟨rs, h2⟩ hp => ⟨h1, rs, h2, fun _ => .inl hp⟩
  have hsame : ∀ r : Parser, r.readTypes = p.readTypes → r.buffer = p.buffer →
      (r.context.holdsObject → p.context.holdsObject) →
      r.readTypes = p.readTypes ∧ ∃ rs, r.buffer.pending = p.buffer.pending ++ rs ∧
        (r.context.holdsObject → p.context.holdsObject ∨ rs ≠ []) :=
    fun r h1 h2 h3 => ⟨h1, [], by simp [h2], fun hr => .inl (h3 hr)⟩
  have hobj : ∀ t init, p.startObject t init = .ok q →
      q.readTypes = p.readTypes ∧ ∃ rs, q.buffer.pending = p.buffer.pending ++ rs ∧
        (q.context.holdsObject → p.context.holdsObject ∨ rs ≠ []) := fun t init h => by
    obtain ⟨-, ⟨-, hdr, -, rfl⟩ | ⟨-, rfl⟩⟩ := startObject_eq_ok h
    · exact ⟨by cases t <;> rfl, [.object t hdr], by cases t <;> rfl, fun _ => .inr (by simp)⟩
    · exact hsame _ (by rfl) (by rfl)
        (by cases t <;> simp [ItemType.ignoredContext, Context.holdsObject])
  obtain ⟨c, hc⟩ : ∃ c, p.context = c := ⟨_, rfl⟩
  cases c
  case root =>
    simp only [startElement, hc] at h
    obtain ⟨hdr, rfl⟩ := startRoot_eq_ok h
    exact hsame _ (by rfl) (by rfl) (by simp [Context.holdsObject])
  case top =>
    rcases startElement_top hc element attrs with ⟨t, ht⟩ | ht | ⟨hdr, d, ht⟩ <;> rw [ht] at h
    · exact hobj _ _ h
    · exact hobj _ _ h
    · cases h
      exact hsame _ (by rfl) (by rfl) (by simp [hc, Context.holdsObject])
  case way =>
    simp only [startElement, hc] at h
    split at h <;> cases h
    · exact hin _ (appendToList_pending ..).1 (appendToList_pending ..).2
        (by simp [hc, Context.holdsObject])
    · exact hin _ (checkTag_pending ..).1 (checkTag_pending ..).2 (by simp [hc, Context.holdsObject])
  case relation =>
    simp only [startElement, hc] at h
    split at h <;> cases h
    · exact hin _ (appendToList_pending ..).1 (appendToList_pending ..).2
        (by simp [hc, Context.holdsObject])
    · exact hin _ (checkTag_pending ..).1 (checkTag_pending ..).2 (by simp [hc, Context.holdsObject])
  case node | changeset =>
    simp only [startElement, hc] at h
    cases h
    exact hin _ (checkTag_pending ..).1 (checkTag_pending ..).2 (by simp [hc, Context.holdsObject])
  all_goals simp only [startElement, hc] at h; cases h; exact hsame _ (by rfl) (by rfl) id

theorem startElement_taskInv {p q : Parser} {element : String} {attrs : Attrs} (hi : p.TaskInv)
    (h : p.startElement element attrs = .ok q) : q.TaskInv ∧ q.queue = p.queue := by
  obtain ⟨hrt, rs, hpend, hhold⟩ := startElement_pending h
  have hq := (startElement_output h).2
  refine ⟨⟨hrt ▸ hi.readTypes, fun hh => ?_, hq ▸ hi.pushed⟩, hq⟩
  rw [hpend]
  rcases hhold hh with hp | hrs
  · simp [hi.pending hp]
  · simp [hrs]

section Flush
variable (needsFlush : Buffer → Bool)

theorem commitObject_queue (p : Parser) :
    ∃ l, (p.commitObject needsFlush).queue = p.queue ++ l ∧
      ∀ b ∈ l, b.committed = p.buffer.committed ++ p.buffer.pending := by
  unfold commitObject flushBuffer
  split
  · exact ⟨[p.buffer.commit], rfl, by simp⟩
  · exact ⟨[], by simp, by simp⟩

theorem endElement_taskInv {p q : Parser} {element : String} (hi : p.TaskInv)
    (h : p.endElement needsFlush element = .ok q) : q.TaskInv ∧ ∃ l, q.queue = p.queue ++ l := by
  have hkeep : ∀ r : Parser, r.readTypes = p.readTypes → r.buffer = p.buffer → r.queue = p.queue →
      (r.context.holdsObject → p.context.holdsObject) → r.TaskInv ∧ ∃ l, r.queue = p.queue ++ l :=
    fun r h1 h2 h3 h4 =>
      ⟨⟨h1 ▸ hi.readTypes, fun hh => h2 ▸ hi.pending (h4 hh), h3 ▸ hi.pushed⟩, [], by simp [h3]⟩
  have hcommit : ∀ t : ItemType, p.context = t.context →
      ((p.releaseBuilders t).commitObject needsFlush).TaskInv ∧
        ∃ l, ((p.releaseBuilders t).commitObject needsFlush).queue = p.queue ++ l := fun t hc => by
    obtain ⟨hb, hq, hr, -⟩ := releaseBuilders_frame p t
    obtain ⟨l, hl, hcom⟩ := commitObject_queue needsFlush (p.releaseBuilders t)
    have hpend := hi.pending (by simp [hc])
    refine ⟨⟨by simpa [hr] using hi.readTypes, by simp [Context.holdsObject], ?_⟩, l, by rw [hl, hq]⟩
    rw [hl, hq]
    intro b hb'
    rcases List.mem_append.mp hb' with hb' | hb'
    · exact hi.pushed b hb'
    · simp [hcom b hb', hb, hpend]
  unfold endElement at h
  split at h
  next => cases h; exact hkeep _ (by rfl) (by rfl) (by rfl) id
  next hc =>
    have htop : ∀ r : Parser, r.context = .top ∨ r.context = .root → r.context.holdsObject →
        p.context.holdsObject := fun r hr hh => by
      rcases hr with hr | hr <;> simp [hr, Context.holdsObject] at hh
    split at h
    · obtain ⟨p', hp', hq⟩ := except_bind_eq_ok h
      obtain ⟨-, rfl⟩ := headerIsDone_eq_ok hp'
      cases hq
      exact hkeep _ (by rfl) (by rfl) (by rfl) (htop _ (.inr rfl))
    split at h <;> cases h
    · exact hkeep _ (by rfl) (by rfl) (by rfl) (htop _ (.inl hc))
    · exact hkeep _ (by rfl) (by rfl) (by rfl) (htop _ (.inl hc))
  next hc => cases h; exact hcommit .node hc
  next hc => cases h; exact hcommit .way hc
  next hc => cases h; exact hcommit .relation hc
  next hc => cases h; exact hcommit .changeset hc
  next hc => cases h; exact hkeep _ (by rfl) (by rfl) (by rfl) (fun _ => by simp [hc, Context.holdsObject])
  all_goals
    cases h
    unfold leaveIgnored
    split
    · exact hkeep _ (by rfl) (by rfl) (by rfl) (by simp [Context.holdsObject])
    · exact hkeep _ (by rfl) (by rfl) (by rfl) id

theorem handle_taskInv {p q : Parser} {e : Event} (hi : p.TaskInv)
    (h : p.handle needsFlush e = .ok q) : q.TaskInv ∧ ∃ l, q.queue = p.queue ++ l := by
  cases e with
  | startElement element attrs =>
    obtain ⟨h1, h2⟩ := startElement_taskInv hi h
    exact ⟨h1, [], by simp [h2]⟩
  | endElement element => exact endElement_taskInv needsFlush hi h

theorem run_taskInv {p q : Parser} {events : List Event} (hi : p.TaskInv)
    (h : p.run needsFlush events = .ok q) : q.TaskInv ∧ ∃ l, q.queue = p.queue ++ l := by
  induction events generalizing p with
  | nil => cases h; exact ⟨hi, [], by simp⟩
  | cons e es ih =>
    obtain ⟨r, hr, hq⟩ := except_bind_eq_ok h
    obtain ⟨hi', l1, hl1⟩ := handle_taskInv needsFlush hi hr
    obtain ⟨hq', l2, hl2⟩ := ih hi' hq
    exact ⟨hq', l1 ++ l2, by rw [hl2, hl1, List.append_assoc]⟩

theorem runUntilError_eq {p q : Parser} {events : List Event} {r : Option ParseError}
    (h : p.runUntilError needsFlush events = (q, r)) :
    (∃ xs q', p.run needsFlush xs = .ok q' ∧ q = { q' with header := q.header }) ∧
      (r = none → p.run needsFlush events = .ok q) ∧
      ∀ err, r = some err → ∃ xs q' e, p.run needsFlush xs = .ok q' ∧
        q'.handle needsFlush e = .error err ∧ q = { q' with header := q'.raisedHeader e } := by
  induction events generalizing p with
  | nil => cases h; exact ⟨⟨[], _, rfl, rfl⟩, fun _ => rfl, by simp⟩
  | cons e es ih =>
    unfold runUntilError at h
    split at h
    next p' hp' =>
      obtain ⟨⟨xs, q', hxs, hq⟩, hnone, hsome⟩ := ih h
      refine ⟨⟨e :: xs, q', by simp [run_cons, hp', hxs], hq⟩,
        fun hr => by simp [run_cons, hp', hnone hr], fun err he => ?_⟩
      obtain ⟨ys, q'', e', hys, he', hq'⟩ := hsome err he
      exact ⟨e :: ys, q'', e', by simp [run_cons, hp', hys], he', hq'⟩
    next err hp' =>
      cases h
      exact ⟨⟨[], _, rfl, rfl⟩, by simp, fun err' he => ⟨[], _, e, rfl, by cases he; exact hp', rfl⟩⟩

theorem parseChunk_eq {p q : Parser} {c : Chunk} {r : Option ParseError} (hi : p.TaskInv)
    (h : p.parseChunk needsFlush c = (q, r)) :
    q.TaskInv ∧ (∃ l, q.queue = p.queue ++ l) ∧ (r = none → p.run needsFlush c.events = .ok q) ∧
      ∀ err, r = some err → err ≠ .parserIsDone := by
  unfold parseChunk at h
  split at h
  next q' err hq' =>
    cases h
    obtain ⟨-, -, hsome⟩ := runUntilError_eq needsFlush hq'
    obtain ⟨xs, q'', e, hxs, he, rfl⟩ := hsome _ rfl
    obtain ⟨hi', hl⟩ := run_taskInv needsFlush hi hxs
    refine ⟨⟨hi'.readTypes, hi'.pending, hi'.pushed⟩, hl, by simp, fun err' he' => ?_⟩
    cases he'
    exact handle_error needsFlush hi'.readTypes he
  next q' hq' =>
    cases h
    obtain ⟨-, hnone, -⟩ := runUntilError_eq needsFlush hq'
    have hrun := hnone rfl
    obtain ⟨hi', hl⟩ := run_taskInv needsFlush hi hrun
    refine ⟨hi', hl, fun _ => hrun, fun err he => ?_⟩
    cases hx : c.expatError <;> simp [hx] at he
    rw [← he]
    simp

/-- Whichever way the loop ends, it has pushed buffers with committed data, then one empty
buffer, and nothing after it. -/
theorem taskLoop_pushes {p : Parser} (hi : p.TaskInv) (kept : Bool) (chunks : List (Chunk × Bool))
    (hend : ∃ r, TaskAction.finish r ∈ p.taskLoop needsFlush kept chunks) :
    ∃ bs, pushes (p.taskLoop needsFlush kept chunks) = bs ++ [Buffer.empty] ∧
      ∀ b ∈ bs, b.committed ≠ [] := by
  induction chunks generalizing p kept with
  | nil => simp [taskLoop] at hend
  | cons cd rest ih =>
    obtain ⟨c, done⟩ := cd
    rcases hpc : p.parseChunk needsFlush c with ⟨q, r⟩
    obtain ⟨hq, ⟨l, hl⟩, -, hsome⟩ := parseChunk_eq needsFlush hi hpc
    have hdrop : q.queue.drop p.queue.length = l := by simp [hl]
    have hlne : ∀ b ∈ l, b.committed ≠ [] := fun b hb => hq.pushed b (by simp [hl, hb])
    cases r with
    | some err =>
      simp only [taskLoop, hpc, hdrop, if_neg (hsome err rfl)]
      exact ⟨l, by simp, hlne⟩
    | none =>
      simp only [taskLoop, hpc, hdrop] at hend ⊢
      by_cases hd : (c.empty || done) = true
      · simp only [hd, if_true]
        refine ⟨l ++ if q.buffer.committed ≠ [] then [q.buffer] else [], ?_, ?_⟩
        · simp [pushes_ite]
        · intro b hb
          rcases List.mem_append.mp hb with hb | hb
          · exact hlne b hb
          · split at hb
            next hc => exact (List.mem_singleton.mp hb) ▸ hc
            next => cases hb
      · simp only [hd, Bool.false_eq_true, if_false] at hend ⊢
        obtain ⟨r, hr⟩ := hend
        obtain ⟨bs, hbs, hbne⟩ := ih hq _ ⟨r, finish_mem_continue hr⟩
        refine ⟨l ++ bs, ?_, fun b hb => ?_⟩
        · rw [pushes_append, pushes_map_push, pushes_append, hbs]
          split <;> simp
        · rcases List.mem_append.mp hb with hb | hb
          · exact hlne b hb
          · exact hbne b hb

theorem taskLoop_committed {p : Parser} (hi : p.TaskInv) (kept : Bool) (chunks : List (Chunk × Bool))
    (hend : TaskAction.finish .returned ∈ p.taskLoop needsFlush kept chunks) :
    ∃ a, p.unflushed.run (fun _ => false) (eventsRead chunks) = .ok a ∧
      p.queue.flatMap Buffer.committed ++
        (pushes (p.taskLoop needsFlush kept chunks)).flatMap Buffer.committed = a.buffer.committed := by
  induction chunks generalizing p kept with
  | nil => simp [taskLoop] at hend
  | cons cd rest ih =>
    obtain ⟨c, done⟩ := cd
    rcases hpc : p.parseChunk needsFlush c with ⟨q, r⟩
    obtain ⟨hq, ⟨l, hl⟩, hnone, hsome⟩ := parseChunk_eq needsFlush hi hpc
    have hdrop : q.queue.drop p.queue.length = l := by simp [hl]
    cases r with
    | some err =>
      simp only [taskLoop, hpc, hdrop, if_neg (hsome err rfl)] at hend
      simp at hend
    | none =>
      have hu : p.unflushed.run (fun _ => false) c.events = .ok q.unflushed := by
        rw [← run_unflushed needsFlush, hnone rfl]
        rfl
      simp only [taskLoop, hpc, hdrop] at hend ⊢
      by_cases hd : (c.empty || done) = true
      · refine ⟨q.unflushed, by simp [eventsRead, hd, hu], ?_⟩
        have hc : (pushes (if q.buffer.committed ≠ [] then [.push q.buffer] else [])).flatMap
            Buffer.committed = q.buffer.committed := by split <;> simp_all
        simp only [hd, if_true, pushes_append, pushes_map_push, pushes_cons_push,
          List.flatMap_append, hc]
        split <;> simp [unflushed, withOutput, records, hl]
      · simp only [hd, Bool.false_eq_true, if_false] at hend ⊢
        obtain ⟨a, ha, hpush⟩ := ih hq _ (finish_mem_continue hend)
        refine ⟨a, by simp [eventsRead, hd, run_append, hu, ha], ?_⟩
        rw [← hpush, pushes_append, pushes_map_push, pushes_append, hl]
        split <;> simp

end Flush

theorem init_taskInv {readTypes : Nat} (hrt : readTypes ≠ entityNothing) : (init readTypes).TaskInv :=
  ⟨hrt, by simp [init, Context.holdsObject], by simp [init]⟩

/-- Whichever way `operator()` ends, it has pushed buffers holding committed data, then one
empty buffer, and nothing after it. -/
theorem task_pushes (needsFlush : Buffer → Bool) {readTypes : Nat}
    (hrt : readTypes ≠ entityNothing) (chunks : List (Chunk × Bool))
    (hend : ∃ r, TaskAction.finish r ∈ task needsFlush readTypes chunks) :
    ∃ bs, pushes (task needsFlush readTypes chunks) = bs ++ [Buffer.empty] ∧
      ∀ b ∈ bs, b.committed ≠ [] :=
  taskLoop_pushes needsFlush (init_taskInv hrt) false chunks hend

/-- Whichever way `operator()` ends, normally, on `m_done` or by an exception, it has pushed
buffers holding committed data, then exactly one empty buffer, and nothing after it; when it
returns normally, those buffers hold exactly what the parser that never flushes commits over
the callbacks it read, in order. -/
theorem task_pushes_committed_then_empty (needsFlush : Buffer → Bool) (readTypes : Nat)
    (hrt : readTypes ≠ entityNothing) (chunks : List (Chunk × Bool))
    (hend : ∃ r, TaskAction.finish r ∈ task needsFlush readTypes chunks) :
    ∃ bs, pushes (task needsFlush readTypes chunks) = bs ++ [Buffer.empty] ∧
      (∀ b ∈ bs, b.committed ≠ []) ∧
      (TaskAction.finish .returned ∈ task needsFlush readTypes chunks →
        ∃ a, (init readTypes).run (fun _ => false) (eventsRead chunks) = .ok a ∧
          bs.flatMap Buffer.committed = a.buffer.committed) := by
  obtain ⟨bs, hbs, hne⟩ := task_pushes needsFlush hrt chunks hend
  refine ⟨bs, hbs, hne, fun hret => ?_⟩
  obtain ⟨a, ha, hc⟩ := taskLoop_committed needsFlush (init_taskInv hrt) false chunks hret
  refine ⟨a, ha, ?_⟩
  have hbs' : pushes ((init readTypes).taskLoop needsFlush false chunks) = bs ++ [Buffer.empty] := hbs
  rw [hbs'] at hc
  simpa [init] using hc

def twoChunks : List (Chunk × Bool) :=
  [(⟨false, [.startElement "osm" [("version", "0.6")], .startElement "node" [("id", "1")],
      .endElement "node"], none⟩, false),
    (⟨true, [.endElement "osm"], none⟩, false)]

theorem task_pushes_two_chunks :
    (1 : Nat) ≠ entityNothing ∧ (∃ r, TaskAction.finish r ∈ task (fun _ => true) 1 twoChunks) ∧
      ∃ bs, pushes (task (fun _ => true) 1 twoChunks) = bs ++ [Buffer.empty] ∧
        (∀ b ∈ bs, b.committed ≠ []) ∧
        (TaskAction.finish .returned ∈ task (fun _ => true) 1 twoChunks →
          ∃ a, (init 1).run (fun _ => false) (eventsRead twoChunks) = .ok a ∧
            bs.flatMap Buffer.committed = a.buffer.committed) :=
  have hend : ∃ r, TaskAction.finish r ∈ task (fun _ => true) 1 twoChunks := ⟨.returned, by decide⟩
  ⟨by decide, hend, task_pushes_committed_then_empty _ 1 (by decide) twoChunks hend⟩

end Parser

end OsrmNutiteq.Osmium

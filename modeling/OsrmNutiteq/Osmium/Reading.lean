import OsrmNutiteq.Osmium.InputFormat
import OsrmNutiteq.Osmium.OsmDocument

/-! # What the reader of an OSM document gets

The buffers a reader takes up to the end of the data hold the document's objects, whatever
the chunking, the flushes and the interleaving. A format built with
`osm_entity_bits::nothing` reads the header alone and pushes no buffer with data.
-/
namespace OsrmNutiteq.Osmium
open Xml

/-! ## Every object, in order -/

theorem Parser.run_never_flushes {p q : Parser} (hp : p.queue = []) {events : List Event}
    (h : p.run (fun _ => false) events = .ok q) : q.queue = [] := by
  have hu := Parser.run_unflushed (fun _ => false) p events
  -- with nothing pushed yet, putting the pushed buffers back changes nothing
  have hpu : p.unflushed = p := by
    simpa only [Parser.unflushed, Parser.records, hp, List.flatMap_nil, List.nil_append] using
      hp ▸ Parser.withOutput_self p
  rw [hpu, h] at hu
  exact congrArg Parser.queue (Except.ok.inj hu).symm

/-- Under every schedule, once the reader has taken the empty end-of-data buffer of a task
that returned normally on chunks carrying a document of the OSM shape, the committed records
of the buffers it has taken are, in order, those of the document's objects: nothing lost,
repeated or reordered, whatever the chunking, the capacity test and the interleaving. -/
theorem read_document_objects (needsFlush : Buffer → Bool) (readTypes : Nat)
    (hrt : readTypes ≠ entityNothing) (doc : Element) (hdoc : IsOsmDocument doc)
    (hvis : VisibleAttributesValid doc) (chunks : List (Chunk × Bool))
    (hchunks : eventsRead chunks = doc.events)
    (hret : TaskAction.finish .returned ∈ Parser.task needsFlush readTypes chunks)
    (calls : List Call) (schedule : List Thread)
    (he : Buffer.empty ∈
      ((System.start (Parser.task needsFlush readTypes chunks) calls).exec schedule).popped) :
    decode (((System.start (Parser.task needsFlush readTypes chunks) calls).exec
      schedule).popped.flatMap Buffer.committed) = documentObjects readTypes doc := by
  -- the reader has taken every buffer the task pushes
  obtain ⟨bs, hbs, hne⟩ := Parser.task_pushes needsFlush hrt chunks ⟨_, hret⟩
  obtain ⟨done, hd, hq⟩ := System.exec_fifo (Parser.task needsFlush readTypes chunks) calls schedule
  set s := (System.start (Parser.task needsFlush readTypes chunks) calls).exec schedule
  have hall : s.popped ++ (s.queue ++ pushes s.task) = bs ++ [Buffer.empty] := by
    rw [← List.append_assoc, hq, ← pushes_append, ← hd, hbs]
  obtain ⟨hp, -⟩ := System.popped_all_of_end hne hall he
  -- they hold what the parser that never flushes commits over the document
  obtain ⟨a, ha, hc⟩ := Parser.taskLoop_committed needsFlush (Parser.init_taskInv hrt) false
    chunks hret
  obtain ⟨q, hq', -, hrec⟩ := Parser.run_document (fun _ => false) readTypes hrt doc hdoc hvis
  have hinit : (Parser.init readTypes).unflushed = Parser.init readTypes := rfl
  rw [hinit, hchunks, hq'] at ha
  obtain rfl : q = a := Except.ok.inj ha
  have hqq : q.queue = [] := Parser.run_never_flushes rfl hq'
  have hpush : pushes (Parser.task needsFlush readTypes chunks) = bs ++ [Buffer.empty] := hbs
  rw [hp, ← hpush]
  have hcom : (pushes (Parser.task needsFlush readTypes chunks)).flatMap Buffer.committed =
      q.records := by
    simpa [Parser.records, hqq, Parser.init] using hc
  rw [hcom, hrec, decode_encode]

/-- `hiddenNodeDocument` in one chunk, nodes read: after the task's four steps and two
`read()` calls, the reader has the node. -/
theorem read_document_objects_hidden_node :
    ((1 : Nat) ≠ entityNothing ∧ IsOsmDocument Parser.hiddenNodeDocument ∧
      VisibleAttributesValid Parser.hiddenNodeDocument ∧
      eventsRead [(⟨true, Parser.hiddenNodeDocument.events, none⟩, false)] =
        Parser.hiddenNodeDocument.events ∧
      TaskAction.finish .returned ∈ Parser.task (fun _ => false) 1
        [(⟨true, Parser.hiddenNodeDocument.events, none⟩, false)] ∧
      Buffer.empty ∈ ((System.start (Parser.task (fun _ => false) 1
        [(⟨true, Parser.hiddenNodeDocument.events, none⟩, false)]) [.read, .read]).exec
          [.task, .task, .task, .task, .reader, .reader, .reader, .reader, .reader]).popped) ∧
    decode (((System.start (Parser.task (fun _ => false) 1
      [(⟨true, Parser.hiddenNodeDocument.events, none⟩, false)]) [.read, .read]).exec
        [.task, .task, .task, .task, .reader, .reader, .reader, .reader, .reader]).popped.flatMap
          Buffer.committed) = documentObjects 1 Parser.hiddenNodeDocument :=
  have hdoc : IsOsmDocument Parser.hiddenNodeDocument := by
    simp [Parser.hiddenNodeDocument, IsOsmDocument, IsTopChild, IsObjectElement, kindOf]
  have hvis : VisibleAttributesValid Parser.hiddenNodeDocument := by
    unfold VisibleAttributesValid VisibleValid Parser.hiddenNodeDocument
    decide
  have hchunks : eventsRead [(⟨true, Parser.hiddenNodeDocument.events, none⟩, false)] =
      Parser.hiddenNodeDocument.events := by
    simp [eventsRead]
  have hret : TaskAction.finish .returned ∈ Parser.task (fun _ => false) 1
      [(⟨true, Parser.hiddenNodeDocument.events, none⟩, false)] := by
    decide
  have he : Buffer.empty ∈ ((System.start (Parser.task (fun _ => false) 1
      [(⟨true, Parser.hiddenNodeDocument.events, none⟩, false)]) [.read, .read]).exec
        [.task, .task, .task, .task, .reader, .reader, .reader, .reader, .reader]).popped := by
    decide
  ⟨⟨by decide, hdoc, hvis, hchunks, hret, he⟩, read_document_objects (fun _ => false) 1
    (by decide) _ hdoc hvis _ hchunks hret [.read, .read] _ he⟩

/-! ## The header only -/

namespace Parser

/-- The parser of a format that reads nothing but the header, before `header_is_done()`:
nothing committed or pushed, and in the `root` or the `top` context. -/
structure HeaderOnly (p : Parser) : Prop where
  readTypes : p.readTypes = entityNothing
  buffer : p.buffer = Buffer.empty
  queue : p.queue = []
  context : p.context = .root ∨ p.context = .top

theorem init_headerOnly : (init entityNothing).HeaderOnly := ⟨rfl, rfl, rfl, .inl rfl⟩

theorem HeaderOnly.update {p : Parser} (hp : p.HeaderOnly) (hdr : Header) (d : Bool) :
    ({ p with header := hdr, inDeleteSection := d } : Parser).HeaderOnly :=
  ⟨hp.readTypes, hp.buffer, hp.queue, hp.context⟩

theorem HeaderOnly.headerIsDone {p : Parser} (hp : p.HeaderOnly) :
    p.headerIsDone = .error .parserIsDone := by
  simp [Parser.headerIsDone, hp.readTypes]

theorem HeaderOnly.startObject {p : Parser} (hp : p.HeaderOnly) (t : ItemType)
    (init : Bool → Except ParseError ObjectHeader) :
    p.startObject t init = .error .parserIsDone := by
  simp [Parser.startObject, hp.headerIsDone]

/-- What a stretch of callbacks does from `top` when only the header is read: it raises
`ParserIsDone`, or leaves the parser at `top`, still reading only the header. -/
def TopOutcome (r : Except ParseError Parser) : Prop :=
  r = .error .parserIsDone ∨ ∃ q, r = .ok q ∧ q.HeaderOnly ∧ q.context = .top

theorem TopOutcome.bind {r : Except ParseError Parser} (hr : TopOutcome r)
    {f : Parser → Except ParseError Parser}
    (hf : ∀ q, q.HeaderOnly → q.context = .top → TopOutcome (f q)) : TopOutcome (r >>= f) := by
  rcases hr with rfl | ⟨q, rfl, hq, hc⟩
  · exact .inl rfl
  · exact hf q hq hc

section Flush
variable (needsFlush : Buffer → Bool)

theorem HeaderOnly.handle_top {p : Parser} (hp : p.HeaderOnly) (hc : p.context = .top)
    (e : Event) : TopOutcome (p.handle needsFlush e) := by
  cases e with
  | startElement n a =>
    rcases startElement_top hc n a with ⟨t, h⟩ | h | ⟨hdr, d, h⟩
    · exact .inl (h.trans (hp.startObject t _))
    · exact .inl (h.trans (hp.startObject .changeset _))
    · exact .inr ⟨_, h, hp.update hdr d, hc⟩
  | endElement n =>
    by_cases hn : n = "osm" ∨ n = "osmChange"
    · left
      simp [handle, endElement, hc, hn, hp.headerIsDone]
    · rw [not_or] at hn
      refine .inr ⟨_, endElement_top needsFlush hc hn, ?_, ?_⟩ <;> split
      · exact hp.update p.header false
      · exact hp
      · exact hc
      · exact hc

theorem HeaderOnly.run_top {p : Parser} (hp : p.HeaderOnly) (hc : p.context = .top)
    (events : List Event) : TopOutcome (p.run needsFlush events) := by
  induction events generalizing p with
  | nil => exact .inr ⟨p, rfl, hp, hc⟩
  | cons e es ih =>
    rw [run_cons]
    exact (hp.handle_top needsFlush hc e).bind fun q hq hqc => ih hq hqc

theorem HeaderOnly.handle {p q : Parser} (hp : p.HeaderOnly) {e : Event}
    (h : p.handle needsFlush e = .ok q) : q.HeaderOnly := by
  rcases hp.context with hc | hc
  · -- at `root` only the root element's start does anything: it enters `top`
    cases e with
    | startElement n a =>
      have h' : p.startRoot n a = .ok q := by simpa [Parser.handle, startElement, hc] using h
      obtain ⟨hdr, rfl⟩ := startRoot_eq_ok h'
      exact ⟨hp.readTypes, hp.buffer, hp.queue, .inr rfl⟩
    | endElement n =>
      obtain rfl : p = q := by simpa [Parser.handle, endElement, hc] using h
      exact hp
  · rcases hp.handle_top needsFlush hc e with he | ⟨q', he, hq', -⟩
    · rw [he] at h
      cases h
    · rw [he] at h
      cases h
      exact hq'

theorem HeaderOnly.run {p q : Parser} (hp : p.HeaderOnly) {events : List Event}
    (h : p.run needsFlush events = .ok q) : q.HeaderOnly := by
  induction events generalizing p with
  | nil =>
    cases h
    exact hp
  | cons e es ih =>
    obtain ⟨p', hp', hrest⟩ := except_bind_eq_ok h
    exact ih (hp.handle needsFlush hp') hrest

theorem HeaderOnly.parseChunk {p q : Parser} (hp : p.HeaderOnly) {c : Chunk}
    {r : Option ParseError} (h : p.parseChunk needsFlush c = (q, r)) : q.HeaderOnly := by
  rcases hr : p.runUntilError needsFlush c.events with ⟨q', r'⟩
  obtain ⟨⟨xs, q'', hxs, hq⟩, -, -⟩ := runUntilError_eq needsFlush hr
  have hq'' := hp.run needsFlush hxs
  have hq' : q'.HeaderOnly := by
    rw [hq]
    exact ⟨hq''.readTypes, hq''.buffer, hq''.queue, hq''.context⟩
  rw [Parser.parseChunk, hr] at h
  cases r' <;> (cases h; exact hq')

/-- The loop pushes no buffer with data: at most the empty end-of-data buffer, which it does
not push when it stops on `ParserIsDone`. -/
theorem HeaderOnly.taskLoop_pushes {p : Parser} (hp : p.HeaderOnly) (kept : Bool)
    (chunks : List (Chunk × Bool)) :
    pushes (p.taskLoop needsFlush kept chunks) = [] ∨
      pushes (p.taskLoop needsFlush kept chunks) = [Buffer.empty] := by
  induction chunks generalizing p kept with
  | nil => exact .inl rfl
  | cons cd rest ih =>
    obtain ⟨c, done⟩ := cd
    rcases hpc : p.parseChunk needsFlush c with ⟨q, _ | err⟩
    all_goals
      have hq := hp.parseChunk needsFlush hpc
      simp only [taskLoop, hpc, hq.queue, hp.queue, List.drop_nil, List.map_nil, List.nil_append]
    · -- no exception: the loop ends on the last chunk or on `m_done`, or goes on
      by_cases hd : (c.empty || done) = true
      · simp [hd, hq.buffer, Buffer.empty]
      · simpa [hd] using ih hq (kept || q.headerDone)
    · -- `ParserIsDone` returns at once; any other exception pushes the empty buffer first
      split <;> simp

end Flush

end Parser

/-- When only the header is wanted, `operator()` pushes no buffer with data, whatever its
input and however it ends: at most the empty end-of-data buffer. -/
theorem task_header_only (needsFlush : Buffer → Bool) (chunks : List (Chunk × Bool)) :
    pushes (Parser.task needsFlush entityNothing chunks) = [] ∨
      pushes (Parser.task needsFlush entityNothing chunks) = [Buffer.empty] :=
  Parser.init_headerOnly.taskLoop_pushes needsFlush false chunks

/-! ## The end of the data -/

/-- When the parser task ends (normally, on `m_done`, or by an exception), a reader that
has taken the empty end-of-data buffer has taken every buffer the task pushes, in order, and
nothing is left in the queue, under every schedule. -/
theorem System.end_of_data_is_last (needsFlush : Buffer → Bool) (readTypes : Nat)
    (chunks : List (Chunk × Bool))
    (hend : ∃ r, TaskAction.finish r ∈ Parser.task needsFlush readTypes chunks)
    (calls : List Call) (schedule : List Thread)
    (he : Buffer.empty ∈
      ((System.start (Parser.task needsFlush readTypes chunks) calls).exec schedule).popped) :
    ((System.start (Parser.task needsFlush readTypes chunks) calls).exec schedule).popped =
        pushes (Parser.task needsFlush readTypes chunks) ∧
      ((System.start (Parser.task needsFlush readTypes chunks) calls).exec schedule).queue = [] := by
  by_cases hrt : readTypes = entityNothing
  · -- only the header is read: the task pushes nothing, or the empty buffer alone
    subst hrt
    rcases Parser.init_headerOnly.taskLoop_pushes needsFlush false chunks with h0 | h1
    · obtain ⟨done, hd, hq⟩ := System.exec_fifo (Parser.task needsFlush entityNothing chunks)
        calls schedule
      have hnil : pushes done = [] := by
        have h := congrArg pushes hd
        rw [pushes_append] at h
        exact (List.append_eq_nil.mp (h.symm.trans h0)).1
      rw [hnil] at hq
      exact absurd (List.mem_append_left _ he) (by rw [hq]; exact List.not_mem_nil _)
    · exact @System.exec_popped_all _ [] h1 (by simp) calls schedule he
  · obtain ⟨bs, hbs, hne⟩ := Parser.task_pushes needsFlush hrt chunks hend
    exact System.exec_popped_all hbs hne calls schedule he

/-- On `badVersionChunks` under `missedSchedule`, the reader takes the empty buffer, and with
it every buffer the task pushes. -/
theorem end_of_data_is_last_missed :
    (∃ r, TaskAction.finish r ∈ Parser.task (fun _ => false) 1 badVersionChunks) ∧
      Buffer.empty ∈ ((System.start (Parser.task (fun _ => false) 1 badVersionChunks)
        [.header, .read]).exec missedSchedule).popped ∧
      ((System.start (Parser.task (fun _ => false) 1 badVersionChunks) [.header, .read]).exec
        missedSchedule).popped = pushes (Parser.task (fun _ => false) 1 badVersionChunks) :=
  have hend : ∃ r, TaskAction.finish r ∈ Parser.task (fun _ => false) 1 badVersionChunks :=
    ⟨.raised (.formatVersion (some "0.5")), by decide⟩
  have he : Buffer.empty ∈ ((System.start (Parser.task (fun _ => false) 1 badVersionChunks)
      [.header, .read]).exec missedSchedule).popped := by decide
  ⟨hend, he, (System.end_of_data_is_last (fun _ => false) 1 badVersionChunks hend
    [.header, .read] missedSchedule he).1⟩

namespace Parser

section Flush
variable (needsFlush : Buffer → Bool)

theorem runUntilError_of_run_error {p : Parser} {events : List Event} {err : ParseError}
    (h : p.run needsFlush events = .error err) :
    ∃ q, p.runUntilError needsFlush events = (q, some err) := by
  induction events generalizing p with
  | nil => cases h
  | cons e es ih =>
    rw [run_cons] at h
    rcases he : p.handle needsFlush e with err' | q
    · rw [he] at h
      cases h
      exact ⟨{ p with header := p.raisedHeader e }, by simp [runUntilError, he]⟩
    · rw [he] at h
      obtain ⟨q', hq'⟩ := ih h
      exact ⟨q', by simp [runUntilError, he, hq']⟩

theorem run_root_headerOnly {n : String} {a : Attrs} (cs : List Element)
    (hn : n = "osm" ∨ n = "osmChange") (hver : ("version", "0.6") ∈ a)
    (hvers : ∀ v, ("version", v) ∈ a → v = "0.6") :
    (init entityNothing).run needsFlush (Element.mk n a cs).events = .error .parserIsDone := by
  obtain ⟨h, hs⟩ := startRoot_document (p := init entityNothing) hn hver hvers
  have hp1 : ({ init entityNothing with header := h, context := .top } : Parser).HeaderOnly :=
    ⟨rfl, rfl, rfl, .inr rfl⟩
  -- the root's end at `top` calls `header_is_done()`
  have hend : ∀ q : Parser, q.HeaderOnly → q.context = .top →
      q.run needsFlush [.endElement n] = .error .parserIsDone := fun q hq hqc => by
    simp [run_cons, handle, endElement, hqc, hn, hq.headerIsDone]
  rw [Element.events_mk, run_cons]
  show (init entityNothing).startRoot n a >>= _ = _
  rw [hs, except_ok_bind, run_append]
  rcases hp1.run_top needsFlush rfl (cs.flatMap Element.events) with hr | ⟨q, hr, hq, hqc⟩
  · simp [hr]
  · simp [hr, hend q hq hqc]

end Flush

end Parser

/-- When only the header is wanted and the first chunk holds a root element that passes the
version check, whatever it holds, `operator()` sets the header and returns, pushing nothing,
not even the empty end-of-data buffer. -/
theorem task_header_only_document (needsFlush : Buffer → Bool) {n : String} {a : Attrs}
    (cs : List Element) (hn : n = "osm" ∨ n = "osmChange") (hver : ("version", "0.6") ∈ a)
    (hvers : ∀ v, ("version", v) ∈ a → v = "0.6") (empty : Bool)
    (expatError : Option (Nat × Nat × String)) (done : Bool) (rest : List (Chunk × Bool)) :
    ∃ h, Parser.task needsFlush entityNothing
      ((⟨empty, (Element.mk n a cs).events, expatError⟩, done) :: rest) =
        [.setHeader h, .finish .returned] := by
  obtain ⟨q, hq⟩ := Parser.runUntilError_of_run_error needsFlush
    (Parser.run_root_headerOnly needsFlush cs hn hver hvers)
  obtain ⟨⟨xs, q', hxs, hqq⟩, -, -⟩ := Parser.runUntilError_eq needsFlush hq
  have hqe : q.queue = [] := by
    rw [hqq]
    exact (Parser.init_headerOnly.run needsFlush hxs).queue
  have hpc : (Parser.init entityNothing).parseChunk needsFlush
      ⟨empty, (Element.mk n a cs).events, expatError⟩ = (q, some .parserIsDone) := by
    rw [Parser.parseChunk, hq]
  refine ⟨q.header, ?_⟩
  rw [Parser.task, Parser.taskLoop, hpc]
  simp [hqe, Parser.fulfil]

/-- A root with a node, in one chunk: the header is set, and nothing is pushed. -/
theorem task_header_only_document_node :
    (("osm" = "osm" ∨ "osm" = "osmChange") ∧ ("version", "0.6") ∈ [("version", "0.6")] ∧
      ∀ v, ("version", v) ∈ [("version", "0.6")] → v = "0.6") ∧
    ∃ h, Parser.task (fun _ => false) entityNothing
      [(⟨true, (Element.mk "osm" [("version", "0.6")] [.mk "node" [("id", "1")] []]).events,
        none⟩, false)] = [.setHeader h, .finish .returned] :=
  have hv : ∀ v, ("version", v) ∈ [("version", "0.6")] → v = "0.6" :=
    fun _ h => (Prod.mk.inj (List.mem_singleton.mp h)).2
  ⟨⟨.inl rfl, List.mem_singleton_self _, hv⟩, task_header_only_document (fun _ => false)
    [.mk "node" [("id", "1")] []] (.inl rfl) (List.mem_singleton_self _) hv true none false []⟩

/-! ## A `read()` on a task that pushes nothing -/

namespace System

/-- The first `read()` is under way or about to begin, no call has returned, and neither the
queue nor what the task still has to do holds a buffer. -/
def ReadWaits (s : System) : Prop :=
  s.queue = [] ∧ s.results = [] ∧ pushes s.task = [] ∧
    (s.current = some .readPop ∨ s.current = none ∧ ∃ cs, s.calls = .read :: cs)

theorem taskStep_readWaits {s : System} (h : ReadWaits s) : ReadWaits s.taskStep := by
  obtain ⟨hq, hr, hp, hc⟩ := h
  unfold taskStep
  split
  next => exact ⟨hq, hr, hp, hc⟩
  next b rest ht =>
    rw [ht, pushes_cons_push] at hp
    cases hp
  next _ rest ht => exact ⟨hq, hr, by rwa [ht, pushes_cons_setHeader] at hp, hc⟩
  next _ rest ht => exact ⟨hq, hr, by rwa [ht, pushes_cons_finish] at hp, hc⟩

theorem readerStep_readWaits {s : System} (h : ReadWaits s) : ReadWaits s.readerStep := by
  obtain ⟨hq, hr, hp, hc | ⟨hc, cs, hcs⟩⟩ := h
  · -- `wait_and_pop` on the empty queue waits
    simp only [readerStep, hc, hq]
    exact ⟨hq, hr, hp, .inl hc⟩
  · -- the `read()` begins
    simp only [readerStep, hc, hcs]
    exact ⟨hq, hr, hp, .inl rfl⟩

end System

/-- Under every schedule, a first `read()` on a parser task that pushes nothing never returns
nor raises: with `m_done` unset it waits in `wait_and_pop` on a queue that stays empty, and
no later call begins. Reading only the header, the task on a root element that passes the
version check is such a task. -/
theorem read_waits_without_pushes (actions : List TaskAction) (hp : pushes actions = [])
    (calls : List Call) (schedule : List Thread) :
    ((System.start actions (.read :: calls)).exec schedule).results = [] :=
  (System.exec_induction System.ReadWaits (fun _ => System.taskStep_readWaits)
    (fun _ => System.readerStep_readWaits) ⟨rfl, rfl, hp, .inr ⟨rfl, calls, rfl⟩⟩ schedule).2.1

/-- The header-only task on a root with a node, then a `read()`: whatever the interleaving,
here the reader's step, the task's two and three more of the reader's, the `read()` has not
returned. -/
theorem read_waits_without_pushes_header_only :
    pushes (Parser.task (fun _ => false) entityNothing
      [(⟨true, (Element.mk "osm" [("version", "0.6")] [.mk "node" [("id", "1")] []]).events,
        none⟩, false)]) = [] ∧
    ((System.start (Parser.task (fun _ => false) entityNothing
      [(⟨true, (Element.mk "osm" [("version", "0.6")] [.mk "node" [("id", "1")] []]).events,
        none⟩, false)]) [.read]).exec [.reader, .task, .task, .reader, .reader, .reader]).results =
      [] :=
  have hp : pushes (Parser.task (fun _ => false) entityNothing
      [(⟨true, (Element.mk "osm" [("version", "0.6")] [.mk "node" [("id", "1")] []]).events,
        none⟩, false)]) = [] := by
    decide
  ⟨hp, read_waits_without_pushes _ hp [] _⟩

end OsrmNutiteq.Osmium

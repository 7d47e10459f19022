import Ensemble.Proofs.Process.TwinSchedules
import Ensemble.Proofs.Run.Ticks
import Ensemble.Proofs.Run.Tokens

/-!
# Worlds that a run cannot tell apart

The statistics and the bill are written by the rounds of a run, and nothing
in it reads them; of what the wall clock shows only times are made. So two
worlds can be alike for a run (`World.Like`) although their statistics and
bills differ, although the best-effort calls that write them fail in the one
and not in the other, and although their clocks differ. `Exchange.Like` says
how little of this comes back to the run as a reply: like acts have like
replies in worlds that are alike, and leave them alike (`World.performs`).
-/

namespace Ensemble

/-- Whether a failure of the call does no harm. -/
def ServiceCall.isBestEffort : ServiceCall → Bool
  | .aggregateStat => true
  | .reportBilling => true
  | _ => false

/-! ## Acts and replies -/

/-- Acts that do the same, or that both use the same best-effort service. -/
inductive Act.Like : Act → Act → Prop
  | same (a : Act) : Like a a
  | aggregate (stat stat' : Usage.Stat) : Like (.aggregate stat) (.aggregate stat')
  | bill (usage usage' : SessionUsage) (stat stat' : Usage.Stat) :
      Like (.bill usage stat) (.bill usage' stat')

/-- Replies to like acts that are the same, or that say both that usage was
recorded, maybe at different times. -/
inductive Exchange.Like : Exchange Act Act.Reply → Exchange Act Act.Reply → Prop
  | same (x : Exchange Act Act.Reply) : Like x x
  | recorded (session agent : String) (delta : Tokens) (usage usage' : SessionUsage) :
      Like ⟨.recordSession session agent delta, .ok usage⟩
        ⟨.recordSession session agent delta, .ok usage'⟩
  | aggregate (stat stat' : Usage.Stat) : Like ⟨.aggregate stat, ()⟩ ⟨.aggregate stat', ()⟩
  | bill (usage usage' : SessionUsage) (stat stat' : Usage.Stat) :
      Like ⟨.bill usage stat, ()⟩ ⟨.bill usage' stat', ()⟩

def runLikeness : Likeness Act Act.Reply := ⟨Act.Like, Exchange.Like⟩

/-- Only of recorded usage there are replies that are alike and not the same. -/
theorem counts_of_ne (a : Act)
    (ha : ∀ session agent delta, a ≠ .recordSession session agent delta) :
    runLikeness.Counts a := by
  refine ⟨.same a, fun reply reply' h => ?_⟩
  cases h with
  | same => rfl
  | recorded session agent delta => exact absurd rfl (ha session agent delta)
  | aggregate | bill => rfl

theorem counts_of {P : Act → Prop}
    (hP : ∀ session agent delta, ¬P (.recordSession session agent delta)) (a : Act) (ha : P a) :
    runLikeness.Counts a :=
  counts_of_ne a fun session agent delta h => hP session agent delta (h ▸ ha)

/-! ## Stores -/

namespace Session

/-- Two sessions that differ in their times only. -/
structure Like (s s' : Session) : Prop where
  id : s'.id = s.id
  agent : s'.agent = s.agent
  usage : s'.usage = s.usage
  finalized : s'.finalizedAt.isSome = s.finalizedAt.isSome

variable {s s' : Session}

theorem Like.refl (s : Session) : s.Like s := ⟨rfl, rfl, rfl, rfl⟩

theorem like_start (id agent : String) (time time' : Instant) :
    (start id agent time).Like (start id agent time') := ⟨rfl, rfl, rfl, rfl⟩

theorem Like.apply (h : s.Like s') (delta : Tokens) (time time' : Instant) :
    (s.apply delta time).Like (s'.apply delta time') :=
  ⟨h.id, h.agent, congrArg (· + delta) h.usage, h.finalized⟩

theorem Like.finalize (h : s.Like s') (time time' : Instant) :
    (s.finalize time).Like (s'.finalize time') := ⟨h.id, h.agent, h.usage, rfl⟩

end Session

/-- Two saved results that differ in their times only. -/
structure ResultRecord.Like (r r' : ResultRecord) : Prop where
  agent : r'.agent = r.agent
  session : r'.session = r.session
  content : r'.content = r.content
  format : r'.format = r.format
  finalized : r'.finalizedAt.isSome = r.finalizedAt.isSome

theorem ResultRecord.Like.refl (r : ResultRecord) : r.Like r := ⟨rfl, rfl, rfl, rfl, rfl⟩

namespace Store

/-- Two stores with like sessions and results, and any statistics and bills. -/
structure Like (s s' : Store) : Prop where
  sessions : ∀ id, Option.Rel Session.Like (s.session? id) (s'.session? id)
  results : List.Forall₂ ResultRecord.Like s.results s'.results

variable {s s' : Store}

theorem Like.refl (s : Store) : s.Like s := by
  refine ⟨fun id => ?_, List.forall₂_same.mpr fun r _ => .refl r⟩
  cases s.session? id with
  | none => exact .none
  | some session => exact .some (.refl session)

theorem Like.recordUsage (h : s.Like s') (session agent : String) (delta : Tokens)
    (time time' : Instant) :
    (s.recordUsage { session, agent, delta, time }).2.Like
      (s'.recordUsage { session, agent, delta, time := time' }).2 := by
  refine ⟨fun id => ?_, h.results⟩
  rw [session?_recordUsage, session?_recordUsage]
  dsimp only [Store.recordUsage]
  by_cases hid : id = session
  · rw [if_pos hid, if_pos hid]
    refine .some (Session.Like.apply ?_ delta time time')
    have hfound := h.sessions session
    generalize s.session? session = found, s'.session? session = found' at hfound
    cases hfound with
    | none => exact Session.like_start session agent time time'
    | some hfound => exact hfound
  · rw [if_neg hid, if_neg hid]
    exact h.sessions id

theorem finalize_like_map {found found' : Option Session} (h : Option.Rel Session.Like found found')
    (time time' : Instant) : Option.Rel Session.Like (found.map fun s => s.finalize time)
      (found'.map fun s => s.finalize time') := by
  cases h with
  | none => exact .none
  | some h => exact .some (h.finalize time time')

theorem finalize_fst (id : String) (time : Instant) (s : Store) :
    (s.finalize id time).1 = (s.session? id).map fun session => session.finalize time := by
  rw [finalize]
  split <;> rename_i h <;> rw [h] <;> rfl

theorem Like.finalized (h : s.Like s') (id : String) (time time' : Instant) :
    Option.Rel Session.Like (s.finalize id time).1 (s'.finalize id time').1 := by
  rw [finalize_fst, finalize_fst]
  exact finalize_like_map (h.sessions id) time time'

theorem finalize_results (id : String) (time : Instant) (s : Store) :
    (s.finalize id time).2.results = s.results := by
  rw [finalize]
  split <;> rfl

theorem Like.finalize (h : s.Like s') (id : String) (time time' : Instant) :
    (s.finalize id time).2.Like (s'.finalize id time').2 := by
  refine ⟨fun other => ?_, ?_⟩
  · rw [session?_finalize, session?_finalize]
    by_cases hid : other = id
    · rw [if_pos hid, if_pos hid]
      exact finalize_like_map (h.sessions id) time time'
    · rw [if_neg hid, if_neg hid]
      exact h.sessions other
  · rw [finalize_results, finalize_results]
    exact h.results

theorem Like.save (h : s.Like s') {r r' : ResultRecord} (hr : r.Like r') :
    (s.save r).Like (s'.save r') :=
  ⟨h.sessions, List.rel_append h.results (.cons hr .nil)⟩

end Store

/-! ## Sinks -/

/-- Two channels with as many lines, of which as many were read. -/
structure Channel.Like (c c' : Channel) : Prop where
  capacity : c'.capacity = c.capacity
  sent : c'.sent.length = c.sent.length
  taken : c'.taken = c.taken
  hungUp : c'.hungUp = c.hungUp

namespace Sink

/-- Two sinks that differ in their times only. -/
structure Like (s s' : Sink) : Prop where
  chunks : s'.chunks.map Chunk.act = s.chunks.map Chunk.act
  channel : Option.Rel Channel.Like s.channel s'.channel
  writing : s'.writing = s.writing

variable {s s' : Sink}

theorem Like.refl (s : Sink) : s.Like s := by
  refine ⟨rfl, ?_, rfl⟩
  cases s.channel with
  | none => exact .none
  | some c => exact .some ⟨rfl, rfl, rfl, rfl⟩

theorem Like.hasUnread (h : s.Like s') : (!s'.waiting.isEmpty) = !s.waiting.isEmpty := by
  obtain ⟨-, hchannel, -⟩ := h
  rw [Sink.waiting, Sink.waiting]
  generalize s.channel = channel, s'.channel = channel' at hchannel
  cases hchannel with
  | none => rfl
  | some hc =>
      rw [Bool.not_inj_iff, Bool.eq_iff_iff, List.isEmpty_iff_length_eq_zero,
        List.isEmpty_iff_length_eq_zero]
      simp only [Channel.waiting, List.length_drop, hc.sent, hc.taken]

theorem Like.hasRoom (h : s.Like s') : s'.hasRoom = s.hasRoom := by
  obtain ⟨-, hchannel, hwriting⟩ := h
  rw [Sink.hasRoom, Sink.hasRoom, hwriting]
  generalize s.channel = channel, s'.channel = channel' at hchannel
  cases hchannel with
  | none => rfl
  | some hc =>
      simp only [Channel.isFull, Channel.waiting, List.length_drop, hc.sent, hc.taken, hc.capacity,
        hc.hungUp]

theorem Like.mapChannel (h : s.Like s') {f : Channel → Channel}
    (hf : ∀ c c', c.Like c' → (f c).Like (f c')) :
    Like { s with channel := s.channel.map f } { s' with channel := s'.channel.map f } := by
  obtain ⟨hchunks, hchannel, hwriting⟩ := h
  refine ⟨hchunks, ?_, hwriting⟩
  dsimp only
  generalize s.channel = channel, s'.channel = channel' at hchannel
  cases hchannel with
  | none => exact .none
  | some hc => exact .some (hf _ _ hc)

theorem Like.take (h : s.Like s') : s.take.Like s'.take :=
  h.mapChannel fun c c' hc =>
    ⟨hc.capacity, hc.sent, by simp only [Channel.take, hc.sent, hc.taken], hc.hungUp⟩

theorem Like.takeAll (h : s.Like s') : s.takeAll.Like s'.takeAll :=
  h.mapChannel fun _ _ hc => ⟨hc.capacity, hc.sent, hc.sent, hc.hungUp⟩

theorem Like.close (h : s.Like s') : s.close.Like s'.close := ⟨h.chunks, h.channel, rfl⟩

theorem Like.write (h : s.Like s') {c c' : Chunk} (hc : c'.act = c.act) :
    (s.write c).Like (s'.write c') := by
  have hchunks : (s'.chunks ++ [c']).map Chunk.act = (s.chunks ++ [c]).map Chunk.act := by
    rw [List.map_append, List.map_append, h.chunks, List.map_singleton, List.map_singleton, hc]
  obtain ⟨-, hchannel, hwriting⟩ := h
  rw [Sink.write, Sink.write, hwriting]
  generalize s.channel = channel, s'.channel = channel' at hchannel
  cases hchannel with
  | none => exact ⟨hchunks, .none, rfl⟩
  | some hsome =>
      dsimp only
      rw [hsome.hungUp]
      split
      · exact ⟨hchunks, .some hsome, rfl⟩
      · split
        · exact ⟨hchunks, .some hsome, rfl⟩
        · refine ⟨hchunks, .some ⟨hsome.capacity, ?_, hsome.taken, rfl⟩, rfl⟩
          rw [List.length_append, List.length_append, hsome.sent]
          rfl

theorem Like.writeAt (h : s.Like s') (now now' : Instant) {build : Instant → Chunk}
    (hbuild : ∀ time time', (build time').act = (build time).act) :
    (s.writeAt now build).Like (s'.writeAt now' build) := by
  have htimed : Like { s with lastAt := some (s.stamp now) }
      { s' with lastAt := some (s'.stamp now') } := ⟨h.chunks, h.channel, h.writing⟩
  exact htimed.write (hbuild _ _)

end Sink

/-! ## Surroundings -/

namespace Services

/-- Two collections of services with like sessions and results, of which the same
calls fail, best-effort calls apart. -/
structure Like (s s' : Services) : Prop where
  store : s.store.Like s'.store
  faults : ∀ c : ServiceCall, c.isBestEffort = false → s'.faults.contains c = s.faults.contains c

end Services

/-- Two environments with like services and the same models, which were asked for
the same, maybe at different times, and tools that were used for the same. -/
structure Environment.Like {M : Type} (e e' : Environment M) : Prop where
  services : e.services.Like e'.services
  model : e'.model = e.model
  requests : e'.requests.map Prod.snd = e.requests.map Prod.snd
  invocations : e'.invocations = e.invocations

theorem Environment.Like.refl {M : Type} (e : Environment M) : e.Like e :=
  ⟨⟨.refl _, fun _ _ => rfl⟩, rfl, rfl, rfl⟩

namespace World

variable {M : Type} {w w' : World M}

/-- Two worlds that a run sees no difference between: they may have other times,
statistics and bills, and other best-effort calls that fail. -/
structure Like (w w' : World M) : Prop where
  environment : w.environment.Like w'.environment
  sink : w.sink.Like w'.sink
  log : w'.log = w.log
  counts : w'.counts = w.counts
  finalized : Option.Rel Session.Like w.finalized w'.finalized

theorem like_start {e e' : Environment M} (h : e.Like e') (sink : Sink) (log : RunLog) :
    (start e sink log).Like (start e' sink log) :=
  ⟨h, .refl sink, rfl, rfl, .none⟩

theorem Like.onLog (h : w.Like w') (f : RunLog → RunLog) : (w.onLog f).Like (w'.onLog f) :=
  ⟨h.environment, h.sink, congrArg f h.log, h.counts, h.finalized⟩

theorem Like.withSink (h : w.Like w') {s s' : Sink} (hs : s.Like s') :
    Like { w with sink := s } { w' with sink := s' } :=
  ⟨h.environment, hs, h.log, h.counts, h.finalized⟩

theorem Like.emit (h : w.Like w') {build : Instant → Chunk}
    (hbuild : ∀ time time', (build time').act = (build time).act) :
    (w.emit build).Like (w'.emit build) := h.withSink (h.sink.writeAt _ _ hbuild)

/-! ## Services in a world -/

def withStore (store : Store) (w : World M) : World M :=
  { w with
    environment := { w.environment with services := { w.environment.services with store } } }

theorem Like.withStore (h : w.Like w') {s s' : Store} (hs : s.Like s') :
    (w.withStore s).Like (w'.withStore s') :=
  ⟨⟨⟨hs, h.environment.services.faults⟩, h.environment.model, h.environment.requests,
      h.environment.invocations⟩,
    h.sink, h.log, h.counts, h.finalized⟩

/-- What like worlds make of a call that matters. -/
inductive Served {α : Type} (P : α → α → Prop) :
    Except String α × World M → Except String α × World M → Prop
  | failed (message : String) {w w' : World M} (hw : w.Like w') :
      Served P (.error message, w) (.error message, w')
  | done {a a' : α} {w w' : World M} (ha : P a a') (hw : w.Like w') :
      Served P (.ok a, w) (.ok a', w')

section Calls

variable {α : Type} {c : ServiceCall} {f f' : Services → Except String α × Services}
  {g g' : Store → α × Store}

theorem serve_eq (hf : ∀ s, f s = s.call c g) (w : World M) :
    w.serve f = if w.environment.services.faults.contains c then (.error c.failure, w)
      else (.ok (g w.store).1, w.withStore (g w.store).2) := by
  rw [serve, hf, Services.call]
  cases w.environment.services.faults.contains c <;> rfl

theorem Like.serve (h : w.Like w') (hc : c.isBestEffort = false) (hf : ∀ s, f s = s.call c g)
    (hf' : ∀ s, f' s = s.call c g') {P : α → α → Prop} (hreply : P (g w.store).1 (g' w'.store).1)
    (hstore : (g w.store).2.Like (g' w'.store).2) : Served P (w.serve f) (w'.serve f') := by
  rw [serve_eq hf, serve_eq hf', h.environment.services.faults c hc]
  split
  · exact .failed _ h
  · exact .done hreply (h.withStore hstore)

/-- A call that writes nothing of what matters may fail in one of two worlds. -/
theorem Like.attempt (h : w.Like w') (hf : ∀ s, f s = s.call c g) (hf' : ∀ s, f' s = s.call c g')
    (hg : ∀ s s' : Store, s.Like s' → s.Like (g' s').2 ∧ (g s).2.Like s') :
    (w.serve f).2.Like (w'.serve f').2 := by
  have hstore := h.environment.services.store
  rw [serve_eq hf, serve_eq hf']
  split <;> split
  · exact h
  · exact h.withStore (hg _ _ hstore).1
  · exact h.withStore (hg _ _ hstore).2
  · exact h.withStore (hg _ _ (hg _ _ hstore).1).2

end Calls

/-! ## Acts -/

theorem Like.aggregate (h : w.Like w') (stat stat' : Usage.Stat) :
    (w.serve (Services.aggregate stat)).2.Like (w'.serve (Services.aggregate stat')).2 :=
  h.attempt (fun _ => rfl) (fun _ => rfl) fun _ _ hs =>
    ⟨⟨hs.sessions, hs.results⟩, ⟨hs.sessions, hs.results⟩⟩

theorem Like.bill (h : w.Like w') (usage usage' : SessionUsage) (stat stat' : Usage.Stat) :
    (w.serve (Services.bill usage stat)).2.Like (w'.serve (Services.bill usage' stat')).2 :=
  h.attempt (fun _ => rfl) (fun _ => rfl) fun _ _ hs =>
    ⟨⟨hs.sessions, hs.results⟩, ⟨hs.sessions, hs.results⟩⟩

theorem Like.save (h : w.Like w') {r r' : ResultRecord} (hr : r.Like r') :
    Served (fun _ _ => True) (w.serve (Services.save r)) (w'.serve (Services.save r')) := by
  have hcall (r : ResultRecord) (s : Services) :
      s.save r = s.call .saveResult fun store => ((), store.save r) := rfl
  exact h.serve rfl (hcall r) (hcall r') trivial (h.environment.services.store.save hr)

theorem Like.invoke (h : w.Like w') (tool : Tool) (args : Json) (context : ToolContext) :
    (w.invoke tool args context).1 = (w'.invoke tool args context).1 ∧
      (w.invoke tool args context).2.Like (w'.invoke tool args context).2 := by
  cases tool with
  | custom spec run =>
      obtain ⟨hservices, hmodel, hrequests, hinvocations⟩ := h.environment
      rw [World.invoke, World.invoke, hinvocations]
      exact ⟨rfl, ⟨hservices, hmodel, hrequests, rfl⟩, h.sink, h.log, h.counts, h.finalized⟩
  | saveResults usual =>
      rw [World.invoke, World.invoke]
      cases Tool.contentToSave args with
      | error e => exact ⟨rfl, h⟩
      | ok content =>
          dsimp only
          have hrecord (time time' : Instant) : ResultRecord.Like
              { agent := context.agentId, session := context.sessionId, content
                format := Tool.formatToSave usual args
                createdAt := time, updatedAt := time, finalizedAt := some time }
              { agent := context.agentId, session := context.sessionId, content
                format := Tool.formatToSave usual args
                createdAt := time', updatedAt := time', finalizedAt := some time' } :=
            ⟨rfl, rfl, rfl, rfl, rfl⟩
          have hsaved := h.save (hrecord w.environment.now w'.environment.now)
          generalize w.serve _ = x, w'.serve _ = x' at hsaved
          cases hsaved with
          | failed message hw => exact ⟨rfl, hw⟩
          | done _ hw => exact ⟨rfl, hw⟩

theorem Like.recordSession (h : w.Like w') (session agent : String) (delta : Tokens) :
    Served (fun _ _ => True) (w.recordSession session agent delta)
      (w'.recordSession session agent delta) := by
  have hserved : Served (fun _ _ => True)
      (w.serve (Services.recordSession { session, agent, delta, time := w.environment.now }))
      (w'.serve (Services.recordSession { session, agent, delta, time := w'.environment.now })) :=
    h.serve rfl (fun _ => rfl) (fun _ => rfl) trivial
      (h.environment.services.store.recordUsage session agent delta _ _)
  rw [World.recordSession, World.recordSession]
  generalize w.serve _ = x, w'.serve _ = x' at hserved
  cases hserved with
  | failed message hw => exact .failed message hw
  | done _ hw => exact .done trivial hw

theorem Like.finalize (h : w.Like w') (session : String) :
    (w.finalize session).Like (w'.finalize session) := by
  have hstore := h.environment.services.store
  have hserved : Served (Option.Rel Session.Like)
      (w.serve (Services.finalize session w.environment.now))
      (w'.serve (Services.finalize session w'.environment.now)) :=
    h.serve rfl (fun _ => rfl) (fun _ => rfl) (hstore.finalized session _ _)
      (hstore.finalize session _ _)
  rw [World.finalize, World.finalize]
  generalize w.serve _ = x, w'.serve _ = x' at hserved
  cases hserved with
  | failed message hw => exact hw
  | done hfinalized hw => exact ⟨hw.environment, hw.sink, hw.log, hw.counts, hfinalized⟩

variable [LanguageModel M]

theorem Like.send (h : w.Like w') (r : ModelRequest) :
    (w.send r).1 = (w'.send r).1 ∧ (w.send r).2.Like (w'.send r).2 := by
  obtain ⟨hservices, hmodel, hrequests, hinvocations⟩ := h.environment
  rw [World.send, World.send]
  dsimp only
  rw [hmodel]
  refine ⟨rfl, ⟨⟨hservices, rfl, ?_, hinvocations⟩, h.sink, h.log, h.counts, h.finalized⟩⟩
  rw [List.map_append, List.map_append, hrequests]
  rfl

/-- An act does the same in worlds that are alike. -/
theorem Like.perform (h : w.Like w') (a : Act) :
    Exchange.Like ⟨a, (World.perform a w).1⟩ ⟨a, (World.perform a w').1⟩ ∧
      (World.perform a w).2.Like (World.perform a w').2 := by
  cases a with
  | send r =>
      obtain ⟨hreply, hnext⟩ := h.send r
      exact ⟨hreply ▸ .same _, hnext⟩
  | invoke tool args context =>
      obtain ⟨hreply, hnext⟩ := h.invoke tool args context
      exact ⟨hreply ▸ .same _, hnext⟩
  | recordSession session agent delta =>
      have hrecorded := h.recordSession session agent delta
      change Exchange.Like ⟨.recordSession .., (w.recordSession session agent delta).1⟩
          ⟨.recordSession .., (w'.recordSession session agent delta).1⟩ ∧
        (w.recordSession session agent delta).2.Like (w'.recordSession session agent delta).2
      generalize w.recordSession session agent delta = x, w'.recordSession session agent delta = x'
        at hrecorded
      cases hrecorded with
      | failed message hw => exact ⟨.same _, hw⟩
      | done _ hw => exact ⟨.recorded .., hw⟩
  | logStart | logSuccess | logFailure | logSkip | logError => exact ⟨.same _, h.onLog _⟩
  | emitStart | emitFinish | emitFinal => exact ⟨.same _, h.emit fun _ _ => rfl⟩
  | emitError message => exact ⟨.same _, h.withSink (h.sink.write rfl)⟩
  | aggregate stat => exact ⟨.same _, h.aggregate stat stat⟩
  | bill usage stat => exact ⟨.same _, h.bill usage usage stat stat⟩
  | count modelCalls toolCalls =>
      refine ⟨.same _, h.environment, h.sink, h.log, ?_, h.finalized⟩
      simp only [World.perform, count, h.counts]
  | finalize session => exact ⟨.same _, h.finalize session⟩
  | close => exact ⟨.same _, h.withSink h.sink.close⟩

/-- Like acts have like replies in worlds that are alike, and leave them alike. -/
theorem performs : runLikeness.Performs perform (Like : World M → World M → Prop) := by
  intro a a' w w' ha hw
  cases ha with
  | same => exact hw.perform a
  | aggregate stat stat' => exact ⟨.aggregate stat stat', hw.aggregate stat stat'⟩
  | bill usage usage' stat stat' =>
      exact ⟨.bill usage usage' stat stat', hw.bill usage usage' stat stat'⟩

/-- The schedule of a run does not look at what may differ in worlds that are alike. -/
theorem drives : runLikeness.Drives machine (Like : World M → World M → Prop) where
  performs := performs
  writes a a' ha := by cases ha <;> rfl
  hasRoom w w' hw := hw.sink.hasRoom
  hasUnread w w' hw := hw.sink.hasUnread
  read w w' hw := hw.withSink hw.sink.takeAll
  setTime time w w' hw :=
    ⟨⟨hw.environment.services, hw.environment.model, hw.environment.requests,
        hw.environment.invocations⟩,
      hw.sink, hw.log, hw.counts, hw.finalized⟩

/-- Twin scripts come to the same result on the schedules that worlds make for
themselves, if their clocks for pauses show the same. -/
theorem run_twin {β : Type} (config : FanoutConfig) {script script' : Script Act Act.Reply β}
    (hscript : script.Twin runLikeness script') (hw : w.Like w')
    (htime : w'.environment.time = w.environment.time) :
    (w'.run config script').1 = (w.run config script).1 ∧
      (w.run config script).2.Like (w'.run config script').2 := by
  have hrun := (Schedule.twin_start hscript hw w.environment.time).run? config drives maxMoves
  rw [run, run, htime]
  generalize (Schedule.start script w w.environment.time).run? config machine maxMoves = x,
    (Schedule.start script' w' w.environment.time).run? config machine maxMoves = x' at hrun
  cases hrun with
  | none => exact ⟨rfl, hw⟩
  | @some s s' hs =>
      have hending : s'.ending? = s.ending? := hs.process.ending?
      dsimp only
      rw [hending]
      split <;> exact ⟨rfl, hs.world⟩

end World

/-! ## Ticks -/

namespace Environment

variable {M : Type} {e e' : Environment M}

/-- From now on, of the best-effort calls those fail that are said to. -/
def spoil (fails : ServiceCall → Bool) (e : Environment M) : Environment M :=
  { e with
    services := { e.services with
      faults := ServiceCall.all.filter fun c =>
        if c.isBestEffort then fails c else e.services.faults.contains c } }

theorem contains_spoil (fails : ServiceCall → Bool) (e : Environment M) (c : ServiceCall) :
    (e.spoil fails).services.faults.contains c
      = if c.isBestEffort then fails c else e.services.faults.contains c := by
  have hall : c ∈ ServiceCall.all := by cases c <;> decide
  rw [Bool.eq_iff_iff, List.contains_iff_mem, spoil, List.mem_filter]
  exact and_iff_right hall

/-- Which best-effort calls fail makes no difference. -/
theorem Like.spoil (h : e.Like e') (fails fails' : ServiceCall → Bool) :
    (e.spoil fails).Like (e'.spoil fails') := by
  refine ⟨⟨h.services.store, fun c hc => ?_⟩, h.model, h.requests, h.invocations⟩
  rw [contains_spoil, contains_spoil, hc]
  exact h.services.faults c hc

end Environment

/-- Changes that keep surroundings alike, and turns of the reader. -/
inductive Drift.Like {M : Type} : Drift M → Drift M → Prop
  | elsewhere {change change' : Environment M → Environment M}
      (h : ∀ e e', e.Like e' → (change e).Like (change' e')) :
      Like (.elsewhere change) (.elsewhere change')
  | take : Like .take .take
  | takeAll : Like .takeAll .takeAll

/-- The same moves, and between them changes that keep surroundings alike. -/
inductive Tick.Like {M : Type} : Tick M → Tick M → Prop
  | move (path : List Nat) (m : Move) : Like (.move path m) (.move path m)
  | drift {d d' : Drift M} (h : d.Like d') : Like (.drift d) (.drift d')

namespace Tick

variable {M : Type}

/-- A schedule in which it is decided anew before each tick which of the best-effort
calls fail. -/
def spoiled (pattern : Nat → ServiceCall → Bool) : List (Tick M) → List (Tick M)
  | [] => []
  | t :: rest =>
    .drift (.elsewhere (.spoil (pattern 0))) :: t :: spoiled (fun i => pattern (i + 1)) rest

/-- Any two patterns of failures make like schedules of one schedule. -/
theorem forall₂_spoiled {ticks : List (Tick M)} (hticks : ∀ t ∈ ticks, t.Like t)
    (pattern pattern' : Nat → ServiceCall → Bool) :
    List.Forall₂ Like (spoiled pattern ticks) (spoiled pattern' ticks) := by
  induction ticks generalizing pattern pattern' with
  | nil => exact .nil
  | cons t rest ih =>
      refine .cons (.drift (.elsewhere fun _ _ h => h.spoil _ _)) ?_
      exact .cons (hticks t (List.mem_cons_self ..))
        (ih (fun t ht => hticks t (List.mem_cons_of_mem _ ht)) _ _)

end Tick

namespace World

variable {M : Type} {w w' : World M}

theorem Like.drift (h : w.Like w') {d d' : Drift M} (hd : d.Like d') :
    (drift d w).Like (drift d' w') := by
  cases hd with
  | elsewhere hchange =>
      exact ⟨hchange _ _ h.environment, h.sink, h.log, h.counts, h.finalized⟩
  | take => exact h.withSink h.sink.take
  | takeAll => exact h.withSink h.sink.takeAll

/-- Twin processes follow like ticks to the same place, or neither can. -/
theorem follow?_twin [LanguageModel M] {β : Type} (config : FanoutConfig)
    {ticks ticks' : List (Tick M)} (hticks : List.Forall₂ Tick.Like ticks ticks')
    {p p' : Process Act Act.Reply β} (hp : p.Twin runLikeness p') (hw : w.Like w') :
    Option.Rel (fun x x' => Process.TwinWith runLikeness Like x.2 x'.2)
      (follow? config ticks p w) (follow? config ticks' p' w') := by
  induction hticks generalizing p p' w w' with
  | nil => exact .some ⟨hp, hw⟩
  | cons head _ ih =>
      cases head with
      | move path m =>
          refine optionRel_bind (Process.move?_twin performs hp hw path) fun x x' hx => ?_
          exact optionRel_bind (ih hx.1 hx.2) fun y y' hy => .some hy
      | drift hd => exact ih hp (hw.drift hd)

end World

end Ensemble

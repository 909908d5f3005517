import AccessRules.Proofs.Directory.Asking

/-!
# How look-ups in the directory fail

**Program** — look-ups of apps, jobs and pools and the list of clusters, whatever the server answers.

**Spec** — a look-up fails with a fault of resolution (`Failure.isResolution`), unless there is no
request for what it asks, the web library breaks down over what comes back, or the directory answers
the list of clusters with a document that counts for something and has no parts (`Look.strays_iff`).

**Crux** — nothing else in the readers of answers fails in another way (`Topic.strays_read_iff`), and
a memory only remembers failures that are faults of resolution (`Memory.IsSound`).  Steps that are put
together of look-ups fail in another way only as these do; what they look up, and over which memory,
is listed beside them (`Asks`).
-/

namespace AccessRules

/-- Whether a failure is a fault of resolution. -/
def Failure.isResolution : Failure → Bool
  | .fault f => f.cause.isResolution
  | _ => false

/-- A document that counts for something but has no parts: a number other than zero, or true. -/
def Value.isPartless (v : Value) : Bool := !v.isBlank && v.parts?.isNone

namespace Directory

open Http

variable {α β : Type}

/-! ## Failures that are no faults of resolution -/

/-- A failure that is no fault of resolution. -/
def Strays (x : Except Failure α) (f : Failure) : Prop := x = .error f ∧ f.isResolution = false

/-- Whether something succeeded, or failed with a fault of resolution. -/
def isForeseen : Except Failure α → Bool
  | .ok _ => true
  | .error f => f.isResolution

theorem isForeseen_iff {x : Except Failure α} : isForeseen x = true ↔ ∀ f, ¬ Strays x f := by
  cases x <;> simp [isForeseen, Strays]

theorem not_strays_ok (a : α) (f : Failure) : ¬ Strays (.ok a) f := nofun

theorem strays_error_iff {e f : Failure} :
    Strays (.error e : Except Failure α) f ↔ e = f ∧ f.isResolution = false := by
  rw [Strays, Except.error.injEq]

theorem not_strays_fault {fault : Fault} (h : fault.cause.isResolution = true) (f : Failure) :
    ¬ Strays (.error (.fault fault) : Except Failure α) f := by
  rintro ⟨heq, hf⟩
  rw [← Except.error.inj heq, Failure.isResolution, h] at hf
  cases hf

theorem strays_bind_iff {x : Except Failure α} {g : α → Except Failure β} {f : Failure} :
    Strays (x.bind g) f ↔ Strays x f ∨ ∃ a, x = .ok a ∧ Strays (g a) f := by
  cases x <;> simp [Except.bind, Strays]

theorem strays_map_iff {x : Except Failure α} {g : α → β} {f : Failure} :
    Strays (x.map g) f ↔ Strays x f := by
  cases x <;> simp [Except.map, Strays]

theorem not_strays_mapM {g : α → Except Failure β} (hg : ∀ a f, ¬ Strays (g a) f) (l : List α)
    (f : Failure) : ¬ Strays (l.mapM g) f := by
  induction l with
  | nil => exact not_strays_ok [] f
  | cons a l ih =>
    rw [List.mapM_cons]
    intro h
    rcases strays_bind_iff.mp h with h | ⟨b, _, h⟩
    · exact hg a f h
    · rcases strays_bind_iff.mp h with h | ⟨bs, _, h⟩
      · exact ih h
      · exact not_strays_ok _ f h

theorem not_strays_badAnswer (endpoint message : String) (f : Failure) :
    ¬ Strays (.error (badAnswer endpoint message) : Except Failure α) f :=
  not_strays_fault rfl f

theorem not_strays_decode (schema : String) (read : Schema.Reader α) (endpoint : String) (v : Value)
    (f : Failure) : ¬ Strays (decode schema read endpoint v) f := by
  rw [decode]
  split
  · exact not_strays_ok _ f
  · exact not_strays_fault rfl f

/-! ## Reading answers -/

theorem not_strays_readApp (name : String) (v : Value) (f : Failure) :
    ¬ Strays (readApp name v) f := by
  intro h
  rcases strays_bind_iff.mp h with h | ⟨w, _, h⟩
  · exact not_strays_decode _ _ _ _ f h
  · split at h
    · exact not_strays_badAnswer _ _ f h
    · exact not_strays_ok _ f h

theorem not_strays_readJob (name : String) (v : Value) (f : Failure) :
    ¬ Strays (readJob name v) f := by
  rw [readJob]
  split
  · exact not_strays_badAnswer _ _ f
  · split
    · exact not_strays_badAnswer _ _ f
    · exact not_strays_decode _ _ _ _ f

theorem not_strays_readPool (name : String) (v : Value) (f : Failure) :
    ¬ Strays (readPool name v) f := by
  intro h
  rcases strays_bind_iff.mp h with h | ⟨p, _, h⟩
  · exact not_strays_decode _ _ _ _ f h
  · split at h
    · exact not_strays_badAnswer _ _ f h
    · exact not_strays_ok _ f h

/-- The list of clusters is not read of a document without parts. -/
theorem strays_readClusters_iff {v : Value} {f : Failure} :
    Strays (readClusters v) f ↔ v.isPartless = true ∧ f = .noParts v := by
  rw [readClusters, Value.isPartless]
  cases v.isBlank with
  | true => simp [not_strays_ok]
  | false =>
    have hparts : Strays v.parts f ↔ v.parts?.isNone = true ∧ f = .noParts v := by
      rw [Value.parts]
      cases v.parts? with
      | some parts => simp [not_strays_ok]
      | none =>
        simp only [Strays, Except.error.injEq, Option.isNone_none, true_and]
        exact ⟨fun h => h.1.symm, fun h => ⟨h.symm, by rw [h]; rfl⟩⟩
    simp only [Bool.false_eq_true, if_false, Bool.not_false, Bool.true_and, ← hparts]
    refine strays_bind_iff.trans (or_iff_left ?_)
    rintro ⟨parts, _, h⟩
    exact not_strays_mapM (fun _ => not_strays_decode _ _ _ _) parts f h

/-- **Only the list of clusters can be answered in a way that is not foreseen.** -/
theorem Topic.strays_read_iff {t : Topic} {v : Value} {f : Failure} :
    Strays (t.read v) f ↔ t = .clusters ∧ v.isPartless = true ∧ f = .noParts v := by
  cases t with
  | app name => simp [read, strays_map_iff, not_strays_readApp]
  | job name => simp [read, strays_map_iff, not_strays_readJob]
  | pool name => simp [read, strays_map_iff, not_strays_readPool]
  | clusters => simp [read, strays_map_iff, strays_readClusters_iff]

/-- The failure with which the web library breaks down over what comes back.  The document in a body
is read only if the server did what it was asked. -/
def breakdown? : Answer → Option Failure
  | .response r =>
    if r.isSuccess then
      match r.content with
      | .error (.breakdown kind message) => some (.breakdown kind message)
      | _ => none
    else none
  | .failed _ => none
  | .breakdown kind message => some (.breakdown kind message)

theorem strays_breakdown_iff {kind message : String} {f : Failure} :
    Strays (.error (.breakdown kind message) : Except Failure α) f ↔
      some (Failure.breakdown kind message) = some f := by
  rw [strays_error_iff, Option.some.injEq]
  refine and_iff_left_of_imp ?_
  rintro rfl
  rfl

/-- What is heard of a server is no other failure than a fault of resolution, unless the web library
breaks down over it. -/
theorem strays_heard_iff {c : Connection} {path : String} {answer : Answer} {f : Failure} :
    Strays (c.heard path answer) f ↔ breakdown? answer = some f := by
  cases answer with
  | failed reason => exact iff_of_false (not_strays_fault rfl f) (Option.some_ne_none f).symm
  | breakdown kind message => exact strays_breakdown_iff
  | response r =>
    rw [Connection.heard, document, breakdown?]
    cases r.isSuccess with
    | false => exact iff_of_false (not_strays_fault rfl f) (Option.some_ne_none f).symm
    | true =>
      simp only [Bool.not_true, Bool.false_eq_true, if_false, if_true]
      cases r.content with
      | ok v => exact iff_of_false (not_strays_ok v f) (Option.some_ne_none f).symm
      | error misread =>
        cases misread with
        | invalid message =>
          exact iff_of_false (not_strays_fault rfl f) (Option.some_ne_none f).symm
        | breakdown kind message => exact strays_breakdown_iff

/-- That there is no request is never said by a fault of resolution. -/
theorem strays_request_iff {c : Connection} {path : String} {f : Failure} :
    Strays (c.request path) f ↔ c.request path = .error f := by
  refine and_iff_left_of_imp fun h => ?_
  rw [Connection.request_eq] at h
  repeat' split at h
  all_goals cases h
  all_goals rfl

/-- **Asking fails in another way only if there is no request**, or the web library breaks down. -/
theorem strays_fetch_iff {c : Connection} {path : String} {m : Memory} {f : Failure} :
    Strays (c.fetch path m).1 f ↔ c.request path = .error f ∨
      ∃ r, c.request path = .ok r ∧ breakdown? (c.server.handle m.sent r) = some f := by
  rw [← strays_request_iff]
  rcases c.fetch_cases path m with ⟨f', hrequest, heq⟩ | ⟨r, hrequest, heq⟩
  · simp [heq, hrequest, strays_error_iff]
  · rw [heq, strays_heard_iff, hrequest]
    simp [not_strays_ok]

/-! ## Look-ups -/

variable {c : Connection} {m : Memory}

/-- A memory that remembers no failures but faults of resolution. -/
def Memory.IsSound (m : Memory) : Prop :=
  ∀ (t : Topic) (known : Except Failure Reply), t.about? m = some known → ∀ f, ¬ Strays known f

theorem Memory.isSound_empty : Memory.empty.IsSound := by
  intro t known h
  cases t <;> cases h

/-- Only an answer or a fault of resolution settles a topic. -/
theorem Topic.not_strays_of_settles {t : Topic} {answer : Except Failure Reply}
    (h : t.settles answer = true) (f : Failure) : ¬ Strays answer f := by
  cases answer with
  | ok reply => exact not_strays_ok reply f
  | error e =>
    cases e with
    | fault fault =>
      have hmissing : fault.isNotFound = true := (Bool.and_eq_true_iff.mp h).2
      refine not_strays_fault ?_ f
      rw [Fault.isNotFound] at hmissing
      split at hmissing
      · next hcause => rw [hcause]; rfl
      · cases hmissing
    | _ => simp [settles, isKept, saysUnknown, Except.isOk, Except.toBool] at h

/-- A look leaves a memory sound. -/
theorem Topic.look_isSound (h : m.IsSound) (t : Topic) : (t.look c m).2.IsSound := by
  cases hknown : t.about? m with
  | some known =>
    rw [look_known hknown]
    exact h
  | none =>
    have hlook := look_unknown (c := c) hknown
    intro t' known' hknown'
    by_cases heq : t' = t
    · obtain rfl := heq
      rw [hlook.itself] at hknown'
      split at hknown'
      · next hsettles =>
        rw [← Option.some.inj hknown']
        exact not_strays_of_settles hsettles
      · cases hknown'
    · rw [hlook.others t' heq] at hknown'
      exact h t' known' hknown'

/-- A topic that is looked up, and the memory that is met. -/
structure Look where
  topic : Topic
  memory : Memory
  deriving Repr

namespace Look

/-- A look that goes well: it can ask, the web library does not break down over what comes back, and
the list of clusters is not answered with something that has no parts. -/
structure GoesWell (c : Connection) (address : Address) (l : Look) : Prop where
  canAsk : c.CanAsk address l.topic.path
  whole : ∀ r, c.request l.topic.path = .ok r →
    breakdown? (c.server.handle l.memory.sent r) = none
  parts : l.topic = .clusters → ∀ v, (c.fetch l.topic.path l.memory).1 = .ok v →
    v.isPartless = false

/-- What a look tells. -/
def answer (c : Connection) (l : Look) : Except Failure Reply := (l.topic.look c l.memory).1

/-- A look that goes astray with a failure: nothing is known, and there is no request for what it
asks, the web library breaks down, or the directory answers the list of clusters with a document
without parts. -/
inductive IsAstray (c : Connection) (l : Look) (f : Failure) : Prop
  | unsent (hnew : l.topic.about? l.memory = none)
      (hrequest : c.request l.topic.path = .error f)
  | broken (r : Request) (hnew : l.topic.about? l.memory = none)
      (hrequest : c.request l.topic.path = .ok r)
      (hanswer : breakdown? (c.server.handle l.memory.sent r) = some f)
  | partless (v : Value) (hnew : l.topic.about? l.memory = none) (ht : l.topic = .clusters)
      (hanswer : (c.fetch l.topic.path l.memory).1 = .ok v) (hv : v.isPartless = true)
      (hf : f = .noParts v)

/-- **When a look fails with no fault of resolution.** -/
theorem strays_iff {l : Look} (h : l.memory.IsSound) {f : Failure} :
    Strays (l.answer c) f ↔ l.IsAstray c f := by
  cases hknown : l.topic.about? l.memory with
  | some known =>
    rw [answer, Topic.look_known hknown]
    refine iff_of_false (h _ _ hknown f) ?_
    rintro (⟨hnew, _⟩ | ⟨_, hnew, _⟩ | ⟨_, hnew, _⟩) <;> rw [hknown] at hnew <;> cases hnew
  | none =>
    rw [answer, (Topic.look_unknown hknown).answer, strays_bind_iff, strays_fetch_iff]
    simp only [Topic.strays_read_iff]
    constructor
    · rintro ((hrequest | ⟨r, hrequest, hanswer⟩) | ⟨v, hanswer, ht, hv, hf⟩)
      · exact .unsent hknown hrequest
      · exact .broken r hknown hrequest hanswer
      · exact .partless v hknown ht hanswer hv hf
    · rintro (⟨_, hrequest⟩ | ⟨r, _, hrequest, hanswer⟩ | ⟨v, _, ht, hanswer, hv, hf⟩)
      · exact .inl (.inl hrequest)
      · exact .inl (.inr ⟨r, hrequest, hanswer⟩)
      · exact .inr ⟨v, hanswer, ht, hv, hf⟩

/-- Over the address of a web server a look goes astray exactly if it does not go well. -/
theorem goesWell_iff {address : Address} (hc : c.IsAt address) {l : Look} :
    (∀ f, ¬ l.IsAstray c f) ↔ (l.topic.about? l.memory = none → l.GoesWell c address) := by
  have hrequest := Connection.isOk_request_iff hc l.topic.isRooted_path
  constructor
  · intro h hnew
    refine ⟨hrequest.mp ?_, fun r hpath => ?_, fun ht v hanswer => ?_⟩
    · cases hpath : c.request l.topic.path with
      | ok r => rfl
      | error f => exact absurd (.unsent hnew hpath) (h f)
    · exact Option.eq_none_iff_forall_ne_some.mpr fun f hf => h f (.broken r hnew hpath hf)
    · exact Bool.eq_false_iff.mpr fun hv => h _ (.partless v hnew ht hanswer hv rfl)
  · rintro h f (⟨hnew, hpath⟩ | ⟨r, hnew, hpath, hanswer⟩ | ⟨v, hnew, ht, hanswer, hv, _⟩)
    · have hok := hrequest.mpr (h hnew).canAsk
      rw [hpath] at hok
      cases hok
    · rw [(h hnew).whole r hpath] at hanswer
      cases hanswer
    · rw [(h hnew).parts ht v hanswer] at hv
      cases hv

end Look

/-! ## Steps put together of look-ups -/

/-- What is looked up after a step, which goes on only if it did not fail. -/
def looksAfter (result : Except Failure α × Memory) (more : α → Memory → List Look) : List Look :=
  match result with
  | (.ok a, m) => more a m
  | (.error _, _) => []

/-- A step over memories that looks up what is listed beside it: it fails with no fault of resolution
exactly as one of its looks does, and leaves memories sound. -/
structure Asks (c : Connection) (step : Memory → Except Failure α × Memory)
    (looks : Memory → List Look) : Prop where
  strays : ∀ m f, Strays (step m).1 f ↔ ∃ l ∈ looks m, Strays (l.answer c) f
  sound : ∀ m, m.IsSound → (step m).2.IsSound
  sounds : ∀ m, m.IsSound → ∀ l ∈ looks m, l.memory.IsSound

namespace Asks

theorem look (c : Connection) (t : Topic) : Asks c (t.look c ·) fun m => [⟨t, m⟩] where
  strays m f := by simp [Look.answer]
  sound m h := t.look_isSound h
  sounds m h l hl := by rwa [List.mem_singleton.mp hl]

/-- A step that asks nothing. -/
theorem pure (c : Connection) {x : Except Failure α} (hx : ∀ f, ¬ Strays x f) :
    Asks c (fun m => (x, m)) fun _ => [] where
  strays m f := by simp [hx f]
  sound m h := h
  sounds m h l hl := nomatch hl

/-- A step whose result is changed afterwards, but for failures that are no faults of resolution. -/
theorem map {step : Memory → Except Failure α × Memory} {looks : Memory → List Look}
    (hstep : Asks c step looks) {g : Except Failure α → Except Failure β}
    (hg : ∀ x f, Strays (g x) f ↔ Strays x f) :
    Asks c (fun m => (g (step m).1, (step m).2)) looks where
  strays m f := (hg _ f).trans (hstep.strays m f)
  sound := hstep.sound
  sounds := hstep.sounds

/-- A step whose result can be told from that of one that is known. -/
theorem of_map {step : Memory → Except Failure α × Memory} {looks : Memory → List Look}
    {g : α → β} (h : Asks c (fun m => ((step m).1.map g, (step m).2)) looks) :
    Asks c step looks where
  strays m f := strays_map_iff.symm.trans (h.strays m f)
  sound := h.sound
  sounds := h.sounds

/-- A step that goes on with another one, unless the first one fails. -/
theorem andThen {first : Memory → Except Failure α × Memory} {looks : Memory → List Look}
    {g : Memory → α → Except Failure β × Memory} {more : α → Memory → List Look}
    {step : Memory → Except Failure β × Memory} (hfirst : Asks c first looks)
    (hnext : ∀ a, Asks c (g · a) (more a))
    (herror : ∀ m n e, first m = (.error e, n) → step m = (.error e, n))
    (hok : ∀ m n a, first m = (.ok a, n) → step m = g n a) :
    Asks c step fun m => looks m ++ looksAfter (first m) more where
  strays m f := by
    have hstrays := hfirst.strays m f
    cases hm : first m with
    | mk x n =>
      rw [hm] at hstrays
      cases x with
      | error e =>
        rw [strays_error_iff] at hstrays
        rw [herror m n e hm, strays_error_iff, hstrays, looksAfter, List.append_nil]
      | ok a =>
        have hno := mt hstrays.mpr (not_strays_ok a f)
        rw [hok m n a hm, (hnext a).strays]
        simp only [looksAfter, List.mem_append, or_and_right, exists_or, hno, false_or]
  sound m h := by
    have hsound := hfirst.sound m h
    cases hm : first m with
    | mk x n =>
      rw [hm] at hsound
      cases x with
      | error e => rwa [herror m n e hm]
      | ok a => exact (hok m n a hm) ▸ (hnext a).sound n hsound
  sounds m h l hl := by
    have hsound := hfirst.sound m h
    rcases List.mem_append.mp hl with hl | hl
    · exact hfirst.sounds m h l hl
    · cases hm : first m with
      | mk x n =>
        rw [hm] at hsound hl
        cases x with
        | error e => cases hl
        | ok a => exact (hnext a).sounds n hsound l hl

end Asks

theorem asks_app (c : Connection) (name : String) :
    Asks c (Lookup.app.run c name ·) fun m => [⟨.app name, m⟩] :=
  .of_map (.look c (.app name))

theorem asks_job (c : Connection) (name : String) :
    Asks c (Lookup.job.run c name ·) fun m => [⟨.job name, m⟩] :=
  .of_map (.look c (.job name))

theorem asks_pool (c : Connection) (name : String) :
    Asks c (Lookup.pool.run c name ·) fun m => [⟨.pool name, m⟩] :=
  .of_map (.look c (.pool name))

theorem asks_clusters (c : Connection) : Asks c (clusters c) fun m => [⟨.clusters, m⟩] :=
  .of_map (.look c .clusters)

end Directory

end AccessRules

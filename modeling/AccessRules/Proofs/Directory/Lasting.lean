import AccessRules.Proofs.Directory.Composing
import AccessRules.Proofs.Directory.Remembering
import AccessRules.Proofs.Fallible

/-!
# What the directory has told lasts

**Program** — steps that look things up in the directory, one after the other, over a memory; the
server may answer the same request differently each time.

**Spec** — a step that succeeded succeeds from then on with the same result and asks nothing,
whatever was looked up in between (`IsComposed.isLasting`).  And no look-up ever blames an endpoint,
by saying that it names nothing or that its pool is not one of the clusters' (`Topic.spares_look`).

**Crux** — a memory changes by looks alone (`Memory.Leads`), and a look only ever adds to what is
known (`Memory.Leads.about?`).  So what a step has found is still there, which is shown for one look
and for each way to put steps together.
-/

namespace AccessRules

/-- Whether a failure blames an endpoint: for naming nothing, or for a pool that is not served. -/
def Failure.blamesEndpoint : Failure → Bool
  | .fault f => f.cause.name == "EmptyRuleError" || f.cause.name == "NotKubernetesPoolError"
  | _ => false

namespace Directory

open Http

variable {α β : Type} {c : Connection} {m n : Memory}

/-! ## Memories that follow from others -/

/-- Some looks lead from a memory to another. -/
inductive Memory.Leads (c : Connection) (m : Memory) : Memory → Prop where
  | refl : Leads c m m
  | look {n : Memory} (h : Leads c m n) (t : Topic) : Leads c m (t.look c n).2

namespace Memory.Leads

theorem trans {k : Memory} (h : m.Leads c n) (h' : n.Leads c k) : m.Leads c k := by
  induction h' with
  | refl => exact h
  | look _ t ih => exact ih.look t

/-- **What is known of a topic stays known.** -/
theorem about? (h : m.Leads c n) {t : Topic} {known : Except Failure Reply}
    (hknown : t.about? m = some known) : t.about? n = some known := by
  induction h with
  | refl => exact hknown
  | @look k _ t' ih =>
    cases hk : t'.about? k with
    | some known' => rwa [Topic.look_known hk]
    | none =>
      -- what was known is another topic than the one that is looked up
      have hne : t ≠ t' := fun heq => by simp [← heq, ih] at hk
      rw [(Topic.look_unknown hk).others t hne, ih]

/-- An inquiry is a look, or nothing. -/
theorem make (c : Connection) (m : Memory) (q : Inquiry) : m.Leads c (q.make c m).2 := by
  cases htopic : q.topic? with
  | some t =>
    rw [Inquiry.make_of_topic htopic]
    exact .look .refl t
  | none =>
    obtain ⟨p, -, hmake⟩ := Inquiry.make_of_no_topic (c := c) (m := m) htopic
    rw [hmake]
    exact .refl

end Memory.Leads

/-! ## Steps whose success lasts -/

/-- A step over memories that does nothing but look topics up, and that succeeds, once it did, over
every later memory with the same result, asking nothing. -/
structure IsLasting (c : Connection) (step : Memory → Except Failure α × Memory) : Prop where
  leads : ∀ m : Memory, m.Leads c (step m).2
  lasts : ∀ {m n k : Memory} {a : α}, step m = (.ok a, n) → n.Leads c k → step k = (.ok a, k)

namespace IsLasting

theorem look (c : Connection) (t : Topic) : IsLasting c (t.look c ·) where
  leads m := .look .refl t
  lasts {m n k a} h hk := by
    have hknown : t.about? n = some (.ok a) := by
      cases hm : t.about? m with
      | some known =>
        rw [Topic.look_known hm] at h
        obtain ⟨rfl, rfl⟩ := Prod.mk.inj h
        exact hm
      | none =>
        have hitself := (Topic.look_unknown (c := c) hm).itself
        rw [h] at hitself
        exact hitself
    exact Topic.look_known (hk.about? hknown)

/-- A step that asks nothing. -/
theorem pure (c : Connection) (x : Except Failure α) : IsLasting c fun m => (x, m) where
  leads m := .refl
  lasts h _ := by rw [(Prod.mk.inj h).1]

/-- A step whose result can be told from that of one that lasts. -/
theorem of_map {step : Memory → Except Failure α × Memory} {g : α → β}
    (hg : Function.Injective g) (h : IsLasting c fun m => ((step m).1.map g, (step m).2)) :
    IsLasting c step where
  leads := h.leads
  lasts {m n k a} hm hk := by
    have hagain := h.lasts (m := m) (n := n) (a := g a) (by rw [hm]; rfl) hk
    obtain ⟨hmap, hmemory⟩ := Prod.mk.inj hagain
    obtain ⟨a', ha', heq⟩ := ok_of_map hmap
    exact Prod.ext (ha'.trans (congrArg _ (hg heq))) hmemory

/-- A step that goes on with another one, unless the first one fails. -/
theorem andThen {first : Memory → Except Failure α × Memory}
    {g : Memory → α → Except Failure β × Memory} {step : Memory → Except Failure β × Memory}
    (hfirst : IsLasting c first) (hnext : ∀ a, IsLasting c (g · a))
    (herror : ∀ m n e, first m = (.error e, n) → step m = (.error e, n))
    (hok : ∀ m n a, first m = (.ok a, n) → step m = g n a) : IsLasting c step where
  leads m := by
    have hleads := hfirst.leads m
    cases hm : first m with
    | mk x n =>
      rw [hm] at hleads
      cases x with
      | error e => rwa [herror m n e hm]
      | ok a =>
        rw [hok m n a hm]
        exact hleads.trans ((hnext a).leads n)
  lasts {m n k b} h hk := by
    cases hm : first m with
    | mk x n' =>
      cases x with
      | error e =>
        rw [herror m n' e hm] at h
        cases (Prod.mk.inj h).1
      | ok a =>
        rw [hok m n' a hm] at h
        -- the memory that the second step met leads on to the one it left
        have hleads : n'.Leads c n := by simpa only [h] using (hnext a).leads n'
        rw [hok k k a (hfirst.lasts hm (hleads.trans hk))]
        exact (hnext a).lasts h hk

end IsLasting

/-- **Whatever is put together of looks lasts.** -/
theorem IsComposed.isLasting {step : Memory → Except Failure α × Memory} (h : IsComposed c step) :
    IsLasting c step := by
  induction h with
  | look t => exact .look c t
  | pure x => exact .pure c x
  | of_map hg _ ih => exact .of_map hg ih
  | andThen _ _ herror hok ihfirst ihnext => exact ihfirst.andThen ihnext herror hok

/-! ## Failures that blame no endpoint -/

/-- Something that succeeded, or whose failure blames no endpoint. -/
def Spares (x : Except Failure α) : Prop := ∀ f, x = .error f → f.blamesEndpoint = false

theorem spares_ok (a : α) : Spares (.ok a) := nofun

theorem spares_error {f : Failure} (h : f.blamesEndpoint = false) :
    Spares (.error f : Except Failure α) := by
  rintro _ ⟨⟩
  exact h

theorem Spares.bind {x : Except Failure α} {g : α → Except Failure β} (hx : Spares x)
    (hg : ∀ a, x = .ok a → Spares (g a)) : Spares (x.bind g) := by
  cases x with
  | error e => exact spares_error (hx e rfl)
  | ok a => exact hg a rfl

theorem Spares.map {x : Except Failure α} (hx : Spares x) (g : α → β) : Spares (x.map g) :=
  hx.bind fun a _ => spares_ok (g a)

theorem Spares.of_map {x : Except Failure α} {g : α → β} (h : Spares (x.map g)) : Spares x := by
  rintro f rfl
  exact h f rfl

theorem spares_mapM {g : α → Except Failure β} (hg : ∀ a, Spares (g a)) (l : List α) :
    Spares (l.mapM g) := by
  induction l with
  | nil => exact spares_ok []
  | cons a l ih =>
    rw [List.mapM_cons]
    exact (hg a).bind fun b _ => ih.bind fun bs _ => spares_ok _

theorem spares_decode (schema : String) (read : Schema.Reader α) (endpoint : String) (v : Value) :
    Spares (decode schema read endpoint v) := by
  rw [decode]
  split
  · exact spares_ok _
  · exact spares_error rfl

/-- No document about a topic makes it blame an endpoint. -/
theorem Topic.spares_read (t : Topic) (v : Value) : Spares (t.read v) := by
  cases t with
  | app name =>
    refine Spares.map (Spares.bind (spares_decode _ _ _ _) fun w _ => ?_) _
    split
    · exact spares_error rfl
    · exact spares_ok w
  | job name =>
    refine Spares.map ?_ _
    rw [readJob]
    split
    · exact spares_error rfl
    · split
      · exact spares_error rfl
      · exact spares_decode _ _ _ _
  | pool name =>
    refine Spares.map (Spares.bind (spares_decode _ _ _ _) fun p _ => ?_) _
    split
    · exact spares_error rfl
    · exact spares_ok p
  | clusters =>
    refine Spares.map ?_ _
    rw [readClusters]
    split
    · exact spares_ok []
    · refine Spares.bind ?_ fun parts _ => spares_mapM (fun _ => spares_decode _ _ _ _) parts
      rw [Value.parts]
      split
      · exact spares_ok _
      · exact spares_error rfl

/-- Nor does anything that is heard of a server, or that nothing could be asked. -/
theorem Connection.spares_fetch (c : Connection) (path : String) (m : Memory) :
    Spares (c.fetch path m).1 := by
  rcases c.fetch_cases path m with ⟨f, hrequest, heq⟩ | ⟨r, -, heq⟩
  · rw [heq]
    refine spares_error ?_
    rw [Connection.request_eq] at hrequest
    repeat' split at hrequest
    all_goals cases hrequest
    all_goals rfl
  · rw [heq]
    cases c.server.handle m.sent r with
    | failed reason => exact spares_error rfl
    | breakdown kind message => exact spares_error rfl
    | response r =>
      rw [Connection.heard, document]
      split
      · exact spares_error rfl
      · split
        · exact spares_ok _
        all_goals exact spares_error rfl

/-- A memory that remembers no failures that blame an endpoint. -/
def Memory.SparesEndpoints (m : Memory) : Prop :=
  ∀ (t : Topic) (known : Except Failure Reply), t.about? m = some known → Spares known

theorem Memory.sparesEndpoints_empty : Memory.empty.SparesEndpoints := by
  intro t known h
  rw [about?_empty] at h
  cases h

/-- **No look-up blames an endpoint.** -/
theorem Topic.spares_look (h : m.SparesEndpoints) (t : Topic) : Spares (t.look c m).1 := by
  cases hm : t.about? m with
  | some known =>
    rw [look_known hm]
    exact h t known hm
  | none =>
    rw [(look_unknown hm).answer]
    exact (c.spares_fetch t.path m).bind fun v _ => t.spares_read v

theorem Memory.Leads.sparesEndpoints (h : m.Leads c n) (hm : m.SparesEndpoints) :
    n.SparesEndpoints := by
  induction h with
  | refl => exact hm
  | @look k _ t ih =>
    intro t' known hknown
    cases hk : t.about? k with
    | some known' =>
      rw [Topic.look_known hk] at hknown
      exact ih t' known hknown
    | none =>
      have hlook := Topic.look_unknown (c := c) hk
      by_cases heq : t' = t
      · obtain rfl := heq
        rw [hlook.itself] at hknown
        split at hknown
        · rw [← Option.some.inj hknown]
          exact t'.spares_look ih
        · cases hknown
      · rw [hlook.others t' heq] at hknown
        exact ih t' known hknown

end Directory

end AccessRules

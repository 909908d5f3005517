import Mathlib.Data.List.Basic
import AccessRules.Directory.Lookup

/-!
# The cluster of a pool

**Program** — `poolCluster` chooses a cluster of the list it knows or is answered: the first that
lists the pool, and if there is none, the last that is a default.  Clusters that something else
provisions are passed over.

**Spec** — which cluster is chosen is said by where it stands in the list and what stands before or
behind it (`IsChosen`), and that is what `poolCluster` answers.  If no two different clusters list the
pool and no two different ones are defaults, the order of the list does not matter
(`poolCluster_chosen`).

**Crux** — the choice is a search from the front, and if it finds nothing, another from the back
(`owner?_eq`).  A search finds the first with a property; where only one has it, that one is the
first and the last in every order (`IsFirst.perm`, `IsLast.perm`).
-/

namespace AccessRules.Directory

/-! ## First and last -/

section Positions

variable {α : Type} {P : α → Prop} {l l' : List α} {x : α}

/-- The first of a list with a property. -/
def IsFirst (P : α → Prop) (l : List α) (x : α) : Prop :=
  P x ∧ ∃ before after, l = before ++ x :: after ∧ ∀ y ∈ before, ¬ P y

/-- The last of a list with a property. -/
def IsLast (P : α → Prop) (l : List α) (x : α) : Prop :=
  P x ∧ ∃ before after, l = before ++ x :: after ∧ ∀ y ∈ after, ¬ P y

/-- No two different items of a list have a property. -/
def AtMostOne (P : α → Prop) (l : List α) : Prop := ∀ x ∈ l, ∀ y ∈ l, P x → P y → x = y

theorem isFirst_reverse : IsFirst P l.reverse x ↔ IsLast P l x := by
  refine and_congr_right fun _ => ?_
  constructor
  · rintro ⟨after, before, hl, hafter⟩
    refine ⟨before.reverse, after.reverse, ?_, fun y hy => hafter y (List.mem_reverse.mp hy)⟩
    rw [← List.reverse_reverse l, hl]
    simp
  · rintro ⟨before, after, rfl, hafter⟩
    exact ⟨after.reverse, before.reverse, by simp, fun y hy => hafter y (List.mem_reverse.mp hy)⟩

/-- A search finds the first with a property. -/
theorem find?_eq_some_iff_isFirst {f : α → Bool} (hf : ∀ y, f y = true ↔ P y) :
    l.find? f = some x ↔ IsFirst P l x := by
  simp only [List.find?_eq_some_iff_append, hf, Bool.not_eq_true', ← Bool.not_eq_true, IsFirst]

/-- Where no other has the property, the first is the first in every order. -/
theorem IsFirst.perm (h : IsFirst P l x) (honly : AtMostOne P l) (hperm : l.Perm l') :
    IsFirst P l' x := by
  obtain ⟨hx, front, back, hl, -⟩ := h
  have hmem : x ∈ l := by simp [hl]
  obtain ⟨before, after, rfl, hbefore⟩ := List.eq_append_cons_of_mem (hperm.mem_iff.mp hmem)
  refine ⟨hx, before, after, rfl, fun y hy hP => ?_⟩
  obtain rfl : y = x :=
    honly y (hperm.mem_iff.mpr (List.mem_append_left _ hy)) x hmem hP hx
  exact hbefore hy

theorem IsLast.perm (h : IsLast P l x) (honly : AtMostOne P l) (hperm : l.Perm l') :
    IsLast P l' x := by
  have honly' : AtMostOne P l.reverse := fun y hy z hz =>
    honly y (List.mem_reverse.mp hy) z (List.mem_reverse.mp hz)
  have hreverse : l.reverse.Perm l'.reverse :=
    (List.reverse_perm l).trans (hperm.trans (List.reverse_perm l').symm)
  exact isFirst_reverse.mp ((isFirst_reverse.mpr h).perm honly' hreverse)

end Positions

/-! ## What is looked for -/

/-- A cluster that is served and lists a pool. -/
structure Cluster.Lists (pool : String) (x : Cluster) : Prop where
  served : x.provisioner = kubernetes
  pool_mem : pool ∈ x.pools

/-- A cluster that is served and is a default. -/
structure Cluster.IsFallback (x : Cluster) : Prop where
  served : x.provisioner = kubernetes
  isDefault : x.isDefault = true

/-- What comes of choosing a cluster of a list for a pool. -/
inductive IsChosen (p : Pool) (cs : List Cluster) : Except Failure Cluster → Prop
  /-- the first cluster that lists the pool -/
  | lists {x : Cluster} (hx : IsFirst (Cluster.Lists p.name) cs x) : IsChosen p cs (.ok x)
  /-- if none lists it, the last cluster that is a default -/
  | fallback {x : Cluster} (hnone : ∀ y ∈ cs, ¬ y.Lists p.name)
      (hx : IsLast Cluster.IsFallback cs x) : IsChosen p cs (.ok x)
  /-- if none is a default either, the failure to find one -/
  | nothing (hnone : ∀ y ∈ cs, ¬ y.Lists p.name) (hno : ∀ y ∈ cs, ¬ y.IsFallback) :
      IsChosen p cs (.error (.fault (.of (.clusterNotFound p.name p.name))))

section Choice

variable {p : Pool} {cs cs' : List Cluster} {answer : Except Failure Cluster}

/-- A cluster that something else provisions is never chosen. -/
theorem IsChosen.served {x : Cluster} (h : IsChosen p cs (.ok x)) :
    x.provisioner = kubernetes := by
  cases h with
  | lists hx => exact hx.1.served
  | fallback _ hx => exact hx.1.served

/-- **What is chosen is chosen in every order**, if it has no rivals. -/
theorem IsChosen.perm (h : IsChosen p cs answer) (hlists : AtMostOne (Cluster.Lists p.name) cs)
    (hdefault : AtMostOne Cluster.IsFallback cs) (hperm : cs.Perm cs') :
    IsChosen p cs' answer := by
  have hmem : ∀ y, y ∈ cs' → y ∈ cs := fun y hy => hperm.mem_iff.mpr hy
  cases h with
  | lists hx => exact .lists (hx.perm hlists hperm)
  | fallback hnone hx =>
    exact .fallback (fun y hy => hnone y (hmem y hy)) (hx.perm hdefault hperm)
  | nothing hnone hno =>
    exact .nothing (fun y hy => hnone y (hmem y hy)) fun y hy => hno y (hmem y hy)

/-! ## Two searches -/

/-- Whether a cluster is served and lists a pool. -/
def Cluster.lists (pool : String) (x : Cluster) : Bool := x.isServed && x.pools.contains pool

/-- Whether a cluster is served and is a default. -/
def Cluster.isFallback (x : Cluster) : Bool := x.isServed && x.isDefault

theorem Cluster.lists_iff (pool : String) (x : Cluster) :
    x.lists pool = true ↔ x.Lists pool := by
  simp only [lists, isServed, Bool.and_eq_true, beq_iff_eq, List.contains_iff_mem]
  constructor
  · rintro ⟨hserved, hmem⟩
    exact ⟨hserved, hmem⟩
  · rintro ⟨hserved, hmem⟩
    exact ⟨hserved, hmem⟩

theorem Cluster.isFallback_iff (x : Cluster) : x.isFallback = true ↔ x.IsFallback := by
  simp only [isFallback, isServed, Bool.and_eq_true, beq_iff_eq]
  constructor
  · rintro ⟨hserved, hdefault⟩
    exact ⟨hserved, hdefault⟩
  · rintro ⟨hserved, hdefault⟩
    exact ⟨hserved, hdefault⟩

/-- **The choice is a search from the front**, and after it one from the back. -/
theorem owner?_eq (pool : String) (cs : List Cluster) :
    owner? pool cs = (cs.find? (·.lists pool)).or (cs.reverse.find? (·.isFallback)) := by
  have hfront : (cs.filter Cluster.isServed).find? (·.pools.contains pool) =
      cs.find? (·.lists pool) := by
    rw [List.find?_filter]
    simp only [Cluster.lists, Bool.decide_and, Bool.decide_eq_true]
  have hback : ((cs.filter Cluster.isServed).filter (·.isDefault)).getLast? =
      cs.reverse.find? (·.isFallback) := by
    rw [List.filter_filter, List.getLast?_filter]
    simp only [Cluster.isFallback, Bool.and_comm]
  rw [owner?]
  simp only [hfront, hback]
  cases cs.find? (·.lists pool) <;> rfl

/-- The answer that a choice amounts to. -/
def answerOf (p : Pool) : Option Cluster → Except Failure Cluster
  | some x => .ok x
  | none => .error (.fault (.of (.clusterNotFound p.name p.name)))

/-- What the two searches find is chosen. -/
theorem isChosen_owner (p : Pool) (cs : List Cluster) :
    IsChosen p cs (answerOf p (owner? p.name cs)) := by
  rw [owner?_eq]
  cases hfront : cs.find? (·.lists p.name) with
  | some x => exact .lists ((find?_eq_some_iff_isFirst (Cluster.lists_iff _)).mp hfront)
  | none =>
    have hnone : ∀ y ∈ cs, ¬ y.Lists p.name := by
      simpa only [List.find?_eq_none, Cluster.lists_iff] using hfront
    cases hback : cs.reverse.find? (·.isFallback) with
    | some x =>
      have hx := (find?_eq_some_iff_isFirst Cluster.isFallback_iff).mp hback
      exact .fallback hnone (isFirst_reverse.mp hx)
    | none =>
      refine .nothing hnone ?_
      simpa only [List.find?_eq_none, Cluster.isFallback_iff, List.mem_reverse] using hback

/-- **Nothing else is chosen.** -/
theorem IsChosen.eq_answerOf (h : IsChosen p cs answer) :
    answerOf p (owner? p.name cs) = answer := by
  have hpassed : (∀ y ∈ cs, ¬ y.Lists p.name) → cs.find? (·.lists p.name) = none := by
    simp only [List.find?_eq_none, Cluster.lists_iff]
    exact id
  rw [owner?_eq]
  cases h with
  | lists hx =>
    rw [(find?_eq_some_iff_isFirst (Cluster.lists_iff _)).mpr hx]
    rfl
  | fallback hnone hx =>
    rw [hpassed hnone,
      (find?_eq_some_iff_isFirst Cluster.isFallback_iff).mpr (isFirst_reverse.mpr hx)]
    rfl
  | nothing hnone hno =>
    have hback : cs.reverse.find? (·.isFallback) = none := by
      simpa only [List.find?_eq_none, Cluster.isFallback_iff, List.mem_reverse] using hno
    rw [hpassed hnone, hback]
    rfl

end Choice

/-! ## The cluster of a pool -/

section PoolCluster

variable {c : Connection} {m : Memory} {p : Pool} {cs : List Cluster}

theorem poolCluster_eq (hp : p.provisioner = kubernetes) (hcs : (clusters c m).1 = .ok cs) :
    (poolCluster c p m).1 = answerOf p (owner? p.name cs) := by
  have hserved : p.isServed = true := beq_iff_eq.mpr hp
  simp only [poolCluster, hserved, hcs, Bool.not_true, Bool.false_eq_true, if_false, Except.bind]
  cases owner? p.name cs <;> rfl

/-- **The cluster of a pool does not depend on the order of the clusters.**  For a pool that is
served and whatever clusters there are, the answer is the first cluster that lists the pool, if none
does the last default, and if there is none either the failure to find one; it is never a cluster
that something else provisions.  If no two different clusters list the pool and no two are defaults,
every other order of the list, known or answered now, has the same answer. -/
theorem poolCluster_chosen (hp : p.provisioner = kubernetes) (hcs : (clusters c m).1 = .ok cs) :
    (∀ answer, (poolCluster c p m).1 = answer ↔ IsChosen p cs answer) ∧
    (∀ x, (poolCluster c p m).1 = .ok x → x.provisioner = kubernetes) ∧
    (AtMostOne (Cluster.Lists p.name) cs → AtMostOne Cluster.IsFallback cs →
      ∀ c' m' cs', (clusters c' m').1 = .ok cs' → cs.Perm cs' →
        (poolCluster c' p m').1 = (poolCluster c p m).1) := by
  have hchosen : ∀ answer, (poolCluster c p m).1 = answer ↔ IsChosen p cs answer := by
    intro answer
    rw [poolCluster_eq hp hcs]
    constructor
    · rintro rfl
      exact isChosen_owner p cs
    · exact IsChosen.eq_answerOf
  refine ⟨hchosen, ?_, ?_⟩
  · intro x hx
    exact ((hchosen _).mp hx).served
  · intro hlists hdefault c' m' cs' hcs' hperm
    have hsame := ((hchosen _).mp rfl).perm hlists hdefault hperm
    rw [poolCluster_eq hp hcs', hsame.eq_answerOf]

end PoolCluster

/-! ## A list in two orders -/

/-- A cluster by name. -/
def clusterNamed (name provisioner : String) (isDefault : Bool) (pools : List String) : Cluster :=
  ⟨name, provisioner, isDefault, pools, [], "", "", "", [], none⟩

/-- Two clusters of kubernetes: a default, and one that lists the pool `web`. -/
def mainCluster : Cluster := clusterNamed "main" kubernetes true []

def webCluster : Cluster := clusterNamed "web" kubernetes false ["web"]

/-- In front of them a cluster of something else that lists the pool and is a default. -/
def threeClusters : List Cluster :=
  [clusterNamed "swarm" "swarm" true ["web", "batch"], mainCluster, webCluster]

/-- A directory that does not answer. -/
def silent : Connection := ⟨"", "", fun _ _ => .failed ""⟩

/-- A memory that knows some clusters. -/
def knowing (cs : List Cluster) : Memory := { Memory.empty with clusters := some cs }

/-- The cluster that lists a pool is chosen for it, and for another pool the default, the same in the
other order. -/
theorem poolCluster_chosen_threeClusters :
    (poolCluster silent ⟨"web", kubernetes⟩ (knowing threeClusters)).1 = .ok webCluster ∧
      (poolCluster silent ⟨"batch", kubernetes⟩ (knowing threeClusters)).1 = .ok mainCluster ∧
      (poolCluster silent ⟨"batch", kubernetes⟩ (knowing threeClusters.reverse)).1 =
        .ok mainCluster := by
  have hweb : IsFirst (Cluster.Lists "web") threeClusters webCluster := by
    refine ⟨⟨rfl, by decide⟩, [_, _], [], rfl, ?_⟩
    simp only [← Cluster.lists_iff]
    decide
  have hbatch : ∀ x ∈ threeClusters, ¬ x.Lists "batch" := by
    simp only [← Cluster.lists_iff]
    decide
  have hmain : ∀ x ∈ threeClusters, x.IsFallback → x = mainCluster := by
    intro x hx hfallback
    simp only [threeClusters, List.mem_cons, List.not_mem_nil, or_false] at hx
    rcases hx with rfl | rfl | rfl
    · exact absurd hfallback.served (by decide)
    · rfl
    · exact absurd hfallback.isDefault (by decide)
  have hlast : IsLast Cluster.IsFallback threeClusters mainCluster := by
    refine ⟨⟨rfl, rfl⟩, [_], [webCluster], rfl, ?_⟩
    simp only [← Cluster.isFallback_iff]
    decide
  have hknown : (clusters silent (knowing threeClusters)).1 = .ok threeClusters := rfl
  obtain ⟨hanswer, -, -⟩ := poolCluster_chosen (p := ⟨"web", kubernetes⟩) rfl hknown
  obtain ⟨hother, -, hperm⟩ := poolCluster_chosen (p := ⟨"batch", kubernetes⟩) rfl hknown
  have hfallback := (hother _).mpr (.fallback hbatch hlast)
  refine ⟨(hanswer _).mpr (.lists hweb), hfallback, ?_⟩
  rw [← hfallback]
  refine hperm ?_ ?_ _ _ _ rfl (List.reverse_perm _).symm
  · intro x hx _ _ hlists
    exact absurd hlists (hbatch x hx)
  · intro x hx y hy hxdefault hydefault
    rw [hmain x hx hxdefault, hmain y hy hydefault]

end AccessRules.Directory

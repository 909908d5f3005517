import AccessRules.Directory.Basic

/-!
# Targets of resolution

What an endpoint resolves to: the cluster that owns it, how to reach that cluster, and the pool by
which it was found.
-/

namespace AccessRules.Resolution

open Schema

/-- The cluster an endpoint was resolved to. -/
structure Target where
  cluster : String
  access : Members
  pool : String
  deriving Repr

namespace Target

def read : Reader Target :=
  record ["cluster_name", "kube_config", "pool"] fun es =>
    Target.mk <$> required es "cluster_name" Schema.text <*>
      field es "kube_config" (textMap anything) [] <*> field es "pool" Schema.text ""

def document (t : Target) : Value :=
  .record [("cluster_name", .text t.cluster), ("kube_config", .record t.access),
    ("pool", .text t.pool)]

end Target

end AccessRules.Resolution

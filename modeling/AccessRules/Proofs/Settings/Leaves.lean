import AccessRules.Proofs.Document.Paths
import AccessRules.Proofs.Endpoint.ReadBack
import AccessRules.Proofs.Settings.Reach

/-!
# The leaves of settings

**Program** — `Settings.document` writes settings as a document of sections, and `Settings.read`
reads such a document.

**Spec** — the document has a value for each of sixteen leaves and for nothing else (`exists_leaf`).
It is read leaf by leaf: settings are read of it just if every value is brought to the form of its
leaf as these settings have it there (`read_fill_iff`).  Whatever was read is read back from the
document that is written of it (`normal_leaf`).

**Crux** — a leaf is brought to its form only once: what is written of a value that was read is read
as that value (`Form.normal_idem`).
-/

namespace AccessRules

namespace Value

/-- What stands at the end of a path into a record, and has no members itself, stands below one of
the members of the record. -/
theorem at?_record {members : List (String × Value)} {path : List String} {w : Value}
    (h : (Value.record members).at? path = some w) (hw : w.entries? = none) :
    ∃ m ∈ members, ∃ rest, path = m.1 :: rest ∧ m.2.at? rest = some w := by
  cases path with
  | nil =>
    obtain rfl := Option.some.inj h
    cases hw
  | cons name rest =>
    obtain ⟨v, hv, hrest⟩ := Option.bind_eq_some_iff.mp h
    obtain ⟨m, hm, heq⟩ := List.mem_map.mp (mem_of_lookup hv)
    obtain ⟨hname, rfl⟩ := Prod.mk.inj heq
    exact ⟨m, hm, rest, by rw [Scalar.text.inj hname], hrest⟩

/-- No path goes on from what has no members. -/
theorem eq_nil_of_at? {v w : Value} {path : List String} (hv : v.entries? = none)
    (h : v.at? path = some w) : path = [] := by
  cases path with
  | nil => rfl
  | cons name rest =>
    obtain ⟨u, hu, -⟩ := Option.bind_eq_some_iff.mp h
    rw [get?, hv] at hu
    cases hu

end Value

namespace Settings

open Schema

/-! ## Leaves -/

/-- The settings that have no others below them. -/
inductive Leaf where
  | debug
  | engines
  | storagePath
  | interval
  | disabled
  | lockExpire
  | keepAliveInterval
  | shutdownTimeout
  | host
  | token
  | timeout
  | insecure
  | space
  | level
  | json
  | port
  deriving DecidableEq, Repr

/-- Where a leaf stands in the document of settings. -/
def Leaf.path : Leaf → List String
  | .debug => ["debug"]
  | .engines => ["engines"]
  | .storagePath => ["storage", "path"]
  | .interval => ["sync", "interval"]
  | .disabled => ["sync", "disabled"]
  | .lockExpire => ["sync", "lock_expire"]
  | .keepAliveInterval => ["sync", "keepalive_interval"]
  | .shutdownTimeout => ["sync", "shutdown_timeout"]
  | .host => ["tsuru", "host"]
  | .token => ["tsuru", "token"]
  | .timeout => ["http", "timeout"]
  | .insecure => ["tls", "insecure"]
  | .space => ["kubernetes", "namespace"]
  | .level => ["log", "level"]
  | .json => ["log", "json"]
  | .port => ["metrics", "port"]

theorem Leaf.path_injective : Function.Injective Leaf.path := by
  intro l l' h
  cases l <;> cases l' <;> first | rfl | (exact absurd h (by decide))

/-- What settings have at a leaf. -/
def leaf (s : Settings) : Leaf → Value
  | .debug => .bool s.debug
  | .engines => .list (s.engines.map .text)
  | .storagePath => .text s.storage.path
  | .interval => .float s.passes.interval
  | .disabled => .bool s.passes.disabled
  | .lockExpire => .float s.passes.lockExpire
  | .keepAliveInterval => .float s.passes.keepAliveInterval
  | .shutdownTimeout => .float s.passes.shutdownTimeout
  | .host => .text s.directory.host
  | .token => .text s.directory.token
  | .timeout => .float s.http.timeout
  | .insecure => .bool s.tls.insecure
  | .space => .text s.kubernetes.space
  | .level => .text s.log.level
  | .json => .bool s.log.json
  | .port => .int s.metrics.port.toNat

/-- A document of settings with some value at each leaf. -/
def fill (f : Leaf → Value) : Value :=
  .record [("debug", f .debug), ("engines", f .engines),
    ("storage", .record [("path", f .storagePath)]),
    ("sync", .record [("interval", f .interval), ("disabled", f .disabled),
      ("lock_expire", f .lockExpire), ("keepalive_interval", f .keepAliveInterval),
      ("shutdown_timeout", f .shutdownTimeout)]),
    ("tsuru", .record [("host", f .host), ("token", f .token)]),
    ("http", .record [("timeout", f .timeout)]), ("tls", .record [("insecure", f .insecure)]),
    ("kubernetes", .record [("namespace", f .space)]),
    ("log", .record [("level", f .level), ("json", f .json)]),
    ("metrics", .record [("port", f .port)])]

theorem document_eq_fill (s : Settings) : s.document = fill s.leaf := rfl

theorem at?_fill (f : Leaf → Value) (l : Leaf) : (fill f).at? l.path = some (f l) := by
  cases l <;> rfl

/-- A value put at the path of a leaf replaces what is there, and nothing else. -/
theorem assign_fill (f : Leaf → Value) (l : Leaf) (v : Value) :
    assign v l.path (fill f) = .ok (fill (Function.update f l v)) := by
  cases l <;> rfl

/-- **What has no members stands at a leaf.**  The document is gone through section by section. -/
theorem exists_leaf {s : Settings} {path : List String} {w : Value}
    (h : s.document.at? path = some w) (hw : w.entries? = none) : ∃ l : Leaf, path = l.path := by
  obtain ⟨m, hm, rest, rfl, hbelow⟩ := Value.at?_record h hw
  simp only [List.mem_cons, List.not_mem_nil, or_false] at hm
  rcases hm with rfl | rfl | rfl | rfl | rfl | rfl | rfl | rfl | rfl | rfl
  · obtain rfl := Value.eq_nil_of_at? rfl hbelow
    exact ⟨.debug, rfl⟩
  · obtain rfl := Value.eq_nil_of_at? rfl hbelow
    exact ⟨.engines, rfl⟩
  all_goals
    obtain ⟨m, hm, rest', rfl, hrest⟩ := Value.at?_record hbelow hw
    simp only [List.mem_cons, List.not_mem_nil, or_false] at hm
  · obtain rfl := hm
    obtain rfl := Value.eq_nil_of_at? rfl hrest
    exact ⟨.storagePath, rfl⟩
  · rcases hm with rfl | rfl | rfl | rfl | rfl <;> obtain rfl := Value.eq_nil_of_at? rfl hrest
    exacts [⟨.interval, rfl⟩, ⟨.disabled, rfl⟩, ⟨.lockExpire, rfl⟩, ⟨.keepAliveInterval, rfl⟩,
      ⟨.shutdownTimeout, rfl⟩]
  · rcases hm with rfl | rfl <;> obtain rfl := Value.eq_nil_of_at? rfl hrest
    exacts [⟨.host, rfl⟩, ⟨.token, rfl⟩]
  · obtain rfl := hm
    obtain rfl := Value.eq_nil_of_at? rfl hrest
    exact ⟨.timeout, rfl⟩
  · obtain rfl := hm
    obtain rfl := Value.eq_nil_of_at? rfl hrest
    exact ⟨.insecure, rfl⟩
  · obtain rfl := hm
    obtain rfl := Value.eq_nil_of_at? rfl hrest
    exact ⟨.space, rfl⟩
  · rcases hm with rfl | rfl <;> obtain rfl := Value.eq_nil_of_at? rfl hrest
    exacts [⟨.level, rfl⟩, ⟨.json, rfl⟩]
  · obtain rfl := hm
    obtain rfl := Value.eq_nil_of_at? rfl hrest
    exact ⟨.port, rfl⟩

/-! ## Forms -/

/-- The forms that values of leaves have. -/
inductive Form where
  | truth
  | texts
  | text
  | seconds
  | someText
  | port

/-- The form of the values of a leaf. -/
def Leaf.form : Leaf → Form
  | .debug | .disabled | .insecure | .json => .truth
  | .engines => .texts
  | .storagePath | .host | .token | .level => .text
  | .interval | .lockExpire | .keepAliveInterval | .shutdownTimeout | .timeout => .seconds
  | .space => .someText
  | .port => .port

namespace Form

/-- A value brought to a form: what is written of it after it was read. -/
def normal : Form → Reader Value
  | .truth, v => Value.bool <$> Schema.bool v
  | .texts, v => (fun ts => .list (ts.map .text)) <$> list Schema.text v
  | .text, v => Value.text <$> Schema.text v
  | .seconds, v => Value.float <$> positiveFloat v
  | .someText, v => Value.text <$> Settings.someText v
  | .port, v => (fun p => .int p.toNat) <$> readPort v

variable {v : Value}

theorem normal_truth {b : Bool} : truth.normal v = .pass (.bool b) ↔ Schema.bool v = .pass b :=
  Check.map_injective_eq_pass fun _ _ h => by cases h; rfl

theorem normal_texts {ts : List String} :
    texts.normal v = .pass (.list (ts.map .text)) ↔ list Schema.text v = .pass ts :=
  Check.map_injective_eq_pass fun _ _ h => List.map_injective_iff.mpr (fun _ _ h => by cases h; rfl)
    (Value.list.inj h)

theorem normal_text {t : String} : text.normal v = .pass (.text t) ↔ Schema.text v = .pass t :=
  Check.map_injective_eq_pass fun _ _ h => by cases h; rfl

theorem normal_seconds {x : Binary64} :
    seconds.normal v = .pass (.float x) ↔ positiveFloat v = .pass x :=
  Check.map_injective_eq_pass fun _ _ h => by cases h; rfl

theorem normal_someText {t : String} :
    someText.normal v = .pass (.text t) ↔ Settings.someText v = .pass t :=
  Check.map_injective_eq_pass fun _ _ h => by cases h; rfl

theorem normal_port {p : UInt16} :
    port.normal v = .pass (.int p.toNat) ↔ readPort v = .pass p :=
  Check.map_injective_eq_pass fun _ _ h => UInt16.toNat_inj.mp (by simpa using h)

theorem text_text (t : String) : Schema.text (.text t) = .pass t := rfl

theorem positiveFloat_float {x : Binary64} (hx : x.isPositive = true) :
    positiveFloat (.float x) = .pass x := by
  simp [positiveFloat, Schema.float, Check.ensure, Check.andThen, hx]

theorem someText_text {t : String} (ht : t.isEmpty = false) :
    Settings.someText (.text t) = .pass t := by
  simp [Settings.someText, Schema.text, Check.ensure, Check.andThen, ht]

theorem readPort_int (p : UInt16) : readPort (.int p.toNat) = .pass p :=
  Port.readNumber_document p

/-- **What is in its form stays as it is.** -/
theorem normal_idem {form : Form} {w : Value} (h : form.normal v = .pass w) :
    form.normal w = .pass w := by
  cases form with
  | truth =>
    obtain ⟨b, -, rfl⟩ := Check.map_eq_pass.mp h
    rfl
  | texts =>
    obtain ⟨ts, -, rfl⟩ := Check.map_eq_pass.mp h
    exact normal_texts.mpr (list_map text_text ts)
  | text =>
    obtain ⟨t, -, rfl⟩ := Check.map_eq_pass.mp h
    rfl
  | seconds =>
    obtain ⟨x, hx, rfl⟩ := Check.map_eq_pass.mp h
    exact normal_seconds.mpr (positiveFloat_float (Check.ok_of_ensure hx))
  | someText =>
    obtain ⟨t, ht, rfl⟩ := Check.map_eq_pass.mp h
    exact normal_someText.mpr (someText_text (by simpa using Check.ok_of_ensure ht))
  | port =>
    obtain ⟨p, -, rfl⟩ := Check.map_eq_pass.mp h
    exact normal_port.mpr (readPort_int p)

end Form

/-! ## Reading -/

section Sections

attribute [local simp] Value.record record also field Name.find Value.lookup strangers stranger

/-- A section of one setting. -/
theorem one_iff {α β : Type} {read : Reader α} {default a : α} {mk : α → β}
    (hmk : Function.Injective mk) (name : String) (v : Value) :
    record [name] (fun es => mk <$> field es name read default) (.record [(name, v)]) =
      .pass (mk a) ↔ read v = .pass a := by
  have hread : record [name] (fun es => mk <$> field es name read default)
      (.record [(name, v)]) = mk <$> (read v).under (.name name) := by simp
  rw [hread, Check.map_injective_eq_pass hmk, Check.under_eq_pass]

theorem Storage.read_iff {a : Value} {s : Storage} :
    Storage.read (.record [("path", a)]) = .pass s ↔ Schema.text a = .pass s.path :=
  one_iff (fun _ _ h => Storage.mk.inj h) "path" a

theorem Http.read_iff {a : Value} {s : Http} :
    Http.read (.record [("timeout", a)]) = .pass s ↔ positiveFloat a = .pass s.timeout :=
  one_iff (fun _ _ h => Http.mk.inj h) "timeout" a

theorem Tls.read_iff {a : Value} {s : Tls} :
    Tls.read (.record [("insecure", a)]) = .pass s ↔ Schema.bool a = .pass s.insecure :=
  one_iff (fun _ _ h => Tls.mk.inj h) "insecure" a

theorem Kubernetes.read_iff {a : Value} {s : Kubernetes} :
    Kubernetes.read (.record [("namespace", a)]) = .pass s ↔ someText a = .pass s.space :=
  one_iff (fun _ _ h => Kubernetes.mk.inj h) "namespace" a

theorem Metrics.read_iff {a : Value} {s : Metrics} :
    Metrics.read (.record [("port", a)]) = .pass s ↔ readPort a = .pass s.port :=
  one_iff (fun _ _ h => Metrics.mk.inj h) "port" a

/-- A section of two settings, once its members are found. -/
theorem both_iff {α β γ : Type} {mk : α → β → γ} (hmk : Function.Injective2 mk) {ca : Check α}
    {cb : Check β} {sa sb : Step} {a : α} {b : β} :
    mk <$> ca.under sa <*> cb.under sb = .pass (mk a b) ↔ ca = .pass a ∧ cb = .pass b := by
  simp only [Check.seq_eq_pass, Check.map_eq_pass, Check.under_eq_pass]
  constructor
  · rintro ⟨_, ⟨_, ha, rfl⟩, _, hb, heq⟩
    obtain ⟨rfl, rfl⟩ := hmk heq
    exact ⟨ha, hb⟩
  · rintro ⟨ha, hb⟩
    exact ⟨_, ⟨_, ha, rfl⟩, _, hb, rfl⟩

theorem DirectoryAccess.read_iff {a b : Value} {s : DirectoryAccess} :
    DirectoryAccess.read (.record [("host", a), ("token", b)]) = .pass s ↔
      Schema.text a = .pass s.host ∧ Schema.text b = .pass s.token := by
  have hread : DirectoryAccess.read (.record [("host", a), ("token", b)]) =
      DirectoryAccess.mk <$> (Schema.text a).under (.name "host") <*>
        (Schema.text b).under (.name "token") := by
    simp [DirectoryAccess.read]
  rw [hread]
  exact both_iff fun _ _ _ _ h => DirectoryAccess.mk.inj h

theorem Log.read_iff {a b : Value} {s : Log} :
    Log.read (.record [("level", a), ("json", b)]) = .pass s ↔
      Schema.text a = .pass s.level ∧ Schema.bool b = .pass s.json := by
  have hread : Log.read (.record [("level", a), ("json", b)]) =
      Log.mk <$> (Schema.text a).under (.name "level") <*>
        (Schema.bool b).under (.name "json") := by
    simp [Log.read]
  rw [hread]
  exact both_iff fun _ _ _ _ h => Log.mk.inj h

theorem Passes.read_iff {a b c d e : Value} {s : Passes} :
    Passes.read (.record [("interval", a), ("disabled", b), ("lock_expire", c),
      ("keepalive_interval", d), ("shutdown_timeout", e)]) = .pass s ↔
      positiveFloat a = .pass s.interval ∧ Schema.bool b = .pass s.disabled ∧
      positiveFloat c = .pass s.lockExpire ∧ positiveFloat d = .pass s.keepAliveInterval ∧
      positiveFloat e = .pass s.shutdownTimeout := by
  have hread : Passes.read (.record [("interval", a), ("disabled", b), ("lock_expire", c),
      ("keepalive_interval", d), ("shutdown_timeout", e)]) =
      Passes.mk <$> (positiveFloat a).under (.name "interval") <*>
        (Schema.bool b).under (.name "disabled") <*>
        (positiveFloat c).under (.name "lock_expire") <*>
        (positiveFloat d).under (.name "keepalive_interval") <*>
        (positiveFloat e).under (.name "shutdown_timeout") := by
    simp [Passes.read]
  rw [hread]
  simp only [Check.seq_eq_pass, Check.map_eq_pass, Check.under_eq_pass]
  constructor
  · rintro ⟨_, ⟨_, ⟨_, ⟨_, ⟨_, ha, rfl⟩, _, hb, rfl⟩, _, hc, rfl⟩, _, hd, rfl⟩, _, he, rfl⟩
    exact ⟨ha, hb, hc, hd, he⟩
  · rintro ⟨ha, hb, hc, hd, he⟩
    exact ⟨_, ⟨_, ⟨_, ⟨_, ⟨_, ha, rfl⟩, _, hb, rfl⟩, _, hc, rfl⟩, _, hd, rfl⟩, _, he, rfl⟩

/-- Settings are read section by section. -/
theorem read_iff {a b c d e f g h i j : Value} {s : Settings} :
    read (.record [("debug", a), ("engines", b), ("storage", c), ("sync", d), ("tsuru", e),
      ("http", f), ("tls", g), ("kubernetes", h), ("log", i), ("metrics", j)]) = .pass s ↔
      Schema.bool a = .pass s.debug ∧ list Schema.text b = .pass s.engines ∧
      Storage.read c = .pass s.storage ∧ Passes.read d = .pass s.passes ∧
      DirectoryAccess.read e = .pass s.directory ∧ Http.read f = .pass s.http ∧
      Tls.read g = .pass s.tls ∧ Kubernetes.read h = .pass s.kubernetes ∧
      Log.read i = .pass s.log ∧ Metrics.read j = .pass s.metrics := by
  have hread : read (.record [("debug", a), ("engines", b), ("storage", c), ("sync", d),
      ("tsuru", e), ("http", f), ("tls", g), ("kubernetes", h), ("log", i), ("metrics", j)]) =
      Settings.mk <$> (Schema.bool a).under (.name "debug") <*>
        (list Schema.text b).under (.name "engines") <*>
        (Storage.read c).under (.name "storage") <*> (Passes.read d).under (.name "sync") <*>
        (DirectoryAccess.read e).under (.name "tsuru") <*> (Http.read f).under (.name "http") <*>
        (Tls.read g).under (.name "tls") <*> (Kubernetes.read h).under (.name "kubernetes") <*>
        (Log.read i).under (.name "log") <*> (Metrics.read j).under (.name "metrics") := by
    simp [read]
  rw [hread]
  simp only [Check.seq_eq_pass, Check.map_eq_pass, Check.under_eq_pass]
  constructor
  · rintro ⟨_, ⟨_, ⟨_, ⟨_, ⟨_, ⟨_, ⟨_, ⟨_, ⟨_, ⟨_, ha, rfl⟩, _, hb, rfl⟩, _, hc, rfl⟩, _, hd, rfl⟩,
      _, he, rfl⟩, _, hf, rfl⟩, _, hg, rfl⟩, _, hh, rfl⟩, _, hi, rfl⟩, _, hj, rfl⟩
    exact ⟨ha, hb, hc, hd, he, hf, hg, hh, hi, hj⟩
  · rintro ⟨ha, hb, hc, hd, he, hf, hg, hh, hi, hj⟩
    exact ⟨_, ⟨_, ⟨_, ⟨_, ⟨_, ⟨_, ⟨_, ⟨_, ⟨_, ⟨_, ha, rfl⟩, _, hb, rfl⟩, _, hc, rfl⟩, _, hd, rfl⟩,
      _, he, rfl⟩, _, hf, rfl⟩, _, hg, rfl⟩, _, hh, rfl⟩, _, hi, rfl⟩, _, hj, rfl⟩

end Sections

/-- **Settings are read leaf by leaf.** -/
theorem read_fill_iff {f : Leaf → Value} {s : Settings} :
    read (fill f) = .pass s ↔ ∀ l : Leaf, l.form.normal (f l) = .pass (s.leaf l) := by
  rw [fill, read_iff, Storage.read_iff, Passes.read_iff, DirectoryAccess.read_iff, Http.read_iff,
    Tls.read_iff, Kubernetes.read_iff, Log.read_iff, Metrics.read_iff]
  constructor
  · rintro ⟨hdebug, hengines, hpath, ⟨hinterval, hdisabled, hexpire, halive, hshutdown⟩,
      ⟨hhost, htoken⟩, htimeout, hinsecure, hspace, ⟨hlevel, hjson⟩, hport⟩ l
    cases l with
    | debug => exact Form.normal_truth.mpr hdebug
    | engines => exact Form.normal_texts.mpr hengines
    | storagePath => exact Form.normal_text.mpr hpath
    | interval => exact Form.normal_seconds.mpr hinterval
    | disabled => exact Form.normal_truth.mpr hdisabled
    | lockExpire => exact Form.normal_seconds.mpr hexpire
    | keepAliveInterval => exact Form.normal_seconds.mpr halive
    | shutdownTimeout => exact Form.normal_seconds.mpr hshutdown
    | host => exact Form.normal_text.mpr hhost
    | token => exact Form.normal_text.mpr htoken
    | timeout => exact Form.normal_seconds.mpr htimeout
    | insecure => exact Form.normal_truth.mpr hinsecure
    | space => exact Form.normal_someText.mpr hspace
    | level => exact Form.normal_text.mpr hlevel
    | json => exact Form.normal_truth.mpr hjson
    | port => exact Form.normal_port.mpr hport
  · intro h
    exact ⟨Form.normal_truth.mp (h .debug), Form.normal_texts.mp (h .engines),
      Form.normal_text.mp (h .storagePath),
      ⟨Form.normal_seconds.mp (h .interval), Form.normal_truth.mp (h .disabled),
        Form.normal_seconds.mp (h .lockExpire), Form.normal_seconds.mp (h .keepAliveInterval),
        Form.normal_seconds.mp (h .shutdownTimeout)⟩,
      ⟨Form.normal_text.mp (h .host), Form.normal_text.mp (h .token)⟩,
      Form.normal_seconds.mp (h .timeout), Form.normal_truth.mp (h .insecure),
      Form.normal_someText.mp (h .space),
      ⟨Form.normal_text.mp (h .level), Form.normal_truth.mp (h .json)⟩,
      Form.normal_port.mp (h .port)⟩

/-! ## Reading back -/

theorem Http.isPositive_of_field {es : Entries} {s : Http}
    (h : field es "http" Http.read .standard = .pass s) : s.timeout.isPositive = true := by
  have hstandard : Http.standard.timeout.isPositive = true := by decide +kernel
  rcases field_eq_pass h with ⟨v, hv⟩ | rfl
  · obtain ⟨es, hv⟩ := record_eq_pass hv
    obtain ⟨x, hx, rfl⟩ := Check.map_eq_pass.mp hv
    exact Settings.isPositive_of_field hstandard hx
  · exact hstandard

theorem Kubernetes.isEmpty_of_field {es : Entries} {s : Kubernetes}
    (h : field es "kubernetes" Kubernetes.read .standard = .pass s) : s.space.isEmpty = false := by
  have hstandard : Kubernetes.standard.space.isEmpty = false := by decide
  rcases field_eq_pass h with ⟨v, hv⟩ | rfl
  · obtain ⟨es, hv⟩ := record_eq_pass hv
    obtain ⟨x, hx, rfl⟩ := Check.map_eq_pass.mp hv
    rcases field_eq_pass hx with ⟨v, ht⟩ | rfl
    · simpa using Check.ok_of_ensure ht
    · exact hstandard
  · exact hstandard

/-- **What was read is in its form**, so it is read back from the document that is written of it. -/
theorem normal_leaf {v : Value} {s : Settings} (h : read v = .pass s) (l : Leaf) :
    l.form.normal (s.leaf l) = .pass (s.leaf l) := by
  have hpasses := isPositive_of_read h
  obtain ⟨es, -, hhttp, hkubernetes⟩ := sections_of_read h
  have hseconds {x : Binary64} (hx : x.isPositive = true) :
      Form.seconds.normal (.float x) = .pass (.float x) :=
    Form.normal_seconds.mpr (Form.positiveFloat_float hx)
  cases l with
  | debug | disabled | insecure | json | storagePath | host | token | level => rfl
  | engines => exact Form.normal_texts.mpr (list_map Form.text_text s.engines)
  | interval => exact hseconds hpasses.interval
  | lockExpire => exact hseconds hpasses.lockExpire
  | keepAliveInterval => exact hseconds hpasses.keepAliveInterval
  | shutdownTimeout => exact hseconds hpasses.shutdownTimeout
  | timeout => exact hseconds (Http.isPositive_of_field hhttp)
  | space =>
    exact Form.normal_someText.mpr (Form.someText_text (Kubernetes.isEmpty_of_field hkubernetes))
  | port => exact Form.normal_port.mpr (Form.readPort_int s.metrics.port)

end Settings

end AccessRules

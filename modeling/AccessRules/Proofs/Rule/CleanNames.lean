import AccessRules.Proofs.Endpoint.NameText
import AccessRules.Proofs.Endpoint.Validity
import AccessRules.Proofs.Rule.Validity

/-!
# Clean names

**Program** — `Rule.isValid` checks the name of a rule and the names at both of its ends.

**Spec** — names go into addresses and names of resources as they are, so those of a valid rule
should be clean: made of lower-case letters, digits, hyphens and points, and no host inside a
cluster, blanks around it ignored (`HasCleanNames`).  They are, if and only if no name ends with a
line break (`hasCleanNames_iff`).

**Crux** — all checks overlook a line break at the very end of a name, and only there
(`isCleanLine_of_isValid`); the check for hosts inside a cluster does not overlook it, so that a
line break behind such a host hides it (`isInternal_iff_of_isValid`).
-/

namespace AccessRules

namespace Schema

theorem dropWhile_of_no_blank {cs : List Char} (h : ∀ c ∈ cs, isBlankChar c = false) :
    cs.dropWhile isBlankChar = cs := by
  cases cs with
  | nil => rfl
  | cons c cs => rw [List.dropWhile_cons_of_neg (by simp [h c (List.mem_cons_self ..)])]

/-- Blanks behind a text without blanks are trimmed, and nothing else. -/
theorem trim_append {core blanks : List Char} (hcore : ∀ c ∈ core, isBlankChar c = false)
    (hblanks : ∀ c ∈ blanks, isBlankChar c = true) : trim (core ++ blanks) = core := by
  have hback : (blanks.reverse ++ core.reverse).dropWhile isBlankChar = core.reverse := by
    rw [List.dropWhile_append_of_pos fun c hc => hblanks c (List.mem_reverse.mp hc)]
    exact dropWhile_of_no_blank fun c hc => hcore c (List.mem_reverse.mp hc)
  cases core with
  | nil =>
    have hnone : blanks.dropWhile isBlankChar = [] := by
      rw [← List.append_nil blanks, List.dropWhile_append_of_pos hblanks, List.dropWhile_nil]
    rw [trim, List.nil_append, hnone]
    rfl
  | cons c core =>
    have hfirst : isBlankChar c = false := hcore c (List.mem_cons_self ..)
    rw [trim, List.cons_append, List.dropWhile_cons_of_neg (by simp [hfirst]), ← List.cons_append,
      List.reverse_append, hback, List.reverse_reverse]

end Schema

/-- No character of names is a blank. -/
theorem Name.isBlankChar_of_isNameChar {c : Char} (h : isNameChar c = true) :
    Schema.isBlankChar c = false := by
  simp only [isNameChar, isLetterOrDigit, isLetter, Bool.or_eq_true, Bool.and_eq_true,
    decide_eq_true_eq, beq_iff_eq] at h
  rcases h with (hletter | rfl) | rfl
  · rw [← Bool.not_eq_true]
    simp only [Schema.isBlankChar, Bool.or_eq_true, Bool.and_eq_true, decide_eq_true_eq]
    omega
  · decide
  · decide

namespace Endpoint

/-- The names of hosts that an endpoint sets. -/
def hosts (e : Endpoint) : List String := e.dns.toList.map (·.name)

/-- The names of apps, jobs, instances and hosts that an endpoint sets. -/
def names (e : Endpoint) : List String :=
  e.app.toList.map (·.name) ++ e.job.toList.map (·.name) ++
    e.rpaas.toList.flatMap (fun r => [r.service, r.inst]) ++ e.hosts

/-- A host inside a cluster, blanks around its name ignored. -/
def IsInternal (host : String) : Prop := internalSuffix.toList <:+ Schema.trim host.toList

/-- **The names of a valid endpoint are clean, but for a line break at their ends.** -/
theorem isCleanLine_of_isValid {e : Endpoint} (h : e.isValid = true) :
    ∀ name ∈ e.names, Name.IsCleanLine name := by
  obtain ⟨happ, hjob, hrpaas, hdns, _⟩ := isValid_iff.mp h
  intro name hname
  simp only [names, hosts, List.mem_append, List.mem_map, List.mem_flatMap,
    Option.mem_toList] at hname
  rcases hname with ((⟨a, ha, rfl⟩ | ⟨j, hj, rfl⟩) | ⟨r, hr, hname⟩) | ⟨d, hd, rfl⟩
  · rcases App.flaw?_eq_none.mp (flaw?_of_bind happ ha) with ⟨hempty, _⟩ | ⟨hwork, _⟩
    · rw [hempty]
      nofun
    · exact Name.isCleanLine_of_isWorkload hwork
  · exact Name.isCleanLine_of_isWorkload (Job.flaw?_eq_none.mp (flaw?_of_bind hjob hj))
  · obtain ⟨hservice, hinst⟩ := Rpaas.flaw?_eq_none.mp (flaw?_of_bind hrpaas hr)
    simp only [List.mem_cons, List.not_mem_nil, or_false] at hname
    rcases hname with rfl | rfl
    · exact Name.isCleanLine_of_isLabel hservice
    · exact Name.isCleanLine_of_isLabel hinst
  · obtain ⟨_, hflaws, _⟩ := Dns.flaw?_eq_none.mp (flaw?_of_bind hdns hd)
    exact Name.isCleanLine_of_withoutWildcard (Name.isCleanLine_of_domainFlaws hflaws)

/-- A host that does not end as those inside a cluster is one of them exactly if a line break hides
its end. -/
theorem isInternal_iff {host : String} (hline : Name.IsCleanLine host)
    (hexternal : ¬ internalSuffix.toList <:+ host.toList) :
    IsInternal host ↔ internalSuffix.toList ++ ['\n'] <:+ host.toList := by
  have hcore : ∀ c ∈ Text.dropFinalNewline host.toList, Schema.isBlankChar c = false :=
    fun c hc => Name.isBlankChar_of_isNameChar (hline c hc)
  rw [IsInternal]
  rcases Text.dropFinalNewline_cases host.toList with ⟨hsame, hnot⟩ | hbreak
  · have htrim := Schema.trim_append hcore (List.forall_mem_nil _)
    rw [hsame, List.append_nil] at htrim
    rw [htrim]
    exact iff_of_false hexternal fun hsuffix => hnot ((List.suffix_append _ _).trans hsuffix)
  · have hblank : ∀ c ∈ ['\n'], Schema.isBlankChar c = true := by
      rw [List.forall_mem_singleton]
      decide
    rw [hbreak, Schema.trim_append hcore hblank, List.suffix_append_self_iff]

/-- **A host of a valid endpoint is inside a cluster only behind a line break.** -/
theorem isInternal_iff_of_isValid {e : Endpoint} (h : e.isValid = true) :
    ∀ host ∈ e.hosts, IsInternal host ↔ internalSuffix.toList ++ ['\n'] <:+ host.toList := by
  intro host hhost
  have hline := isCleanLine_of_isValid h host (List.mem_append_right _ hhost)
  obtain ⟨d, hd, rfl⟩ := List.mem_map.mp hhost
  have hdns := (isValid_iff.mp h).2.2.2.1
  obtain ⟨_, _, hexternal⟩ := Dns.flaw?_eq_none.mp (flaw?_of_bind hdns (Option.mem_toList.mp hd))
  refine isInternal_iff hline fun hsuffix => ?_
  rw [endsWith, List.isSuffixOf_iff_suffix.mpr hsuffix] at hexternal
  cases hexternal

end Endpoint

namespace Rule

/-- The names of hosts at both ends of a rule. -/
def hosts (r : Rule) : List String := r.source.hosts ++ r.destination.hosts

/-- The name of a rule and the names at both of its ends. -/
def names (r : Rule) : List String := r.name :: (r.source.names ++ r.destination.names)

/-- The names of a rule may go anywhere as they are: they hold only characters of names, and no host
is inside a cluster. -/
structure HasCleanNames (r : Rule) : Prop where
  clean : ∀ name ∈ r.names, Name.IsClean name
  external : ∀ host ∈ r.hosts, ¬ Endpoint.IsInternal host

/-- **The names of a valid rule are clean, unless one ends with a line break.**  Each of them is
clean but for a line break at its end, and a host is inside a cluster exactly if a line break hides
its end; so they are clean if and only if none ends with a line break. -/
theorem hasCleanNames_iff {r : Rule} (h : r.isValid = true) :
    (∀ name ∈ r.names, Name.IsCleanLine name) ∧
    (∀ host ∈ r.hosts, Endpoint.IsInternal host ↔
      Endpoint.internalSuffix.toList ++ ['\n'] <:+ host.toList) ∧
    (r.HasCleanNames ↔ ∀ name ∈ r.names, ¬ ['\n'] <:+ name.toList) := by
  obtain ⟨hname, hsource, hdestination⟩ := isValid_iff.mp h
  have hlines : ∀ name ∈ r.names, Name.IsCleanLine name := by
    simp only [names, List.forall_mem_cons, List.forall_mem_append]
    refine ⟨?_, Endpoint.isCleanLine_of_isValid hsource,
      Endpoint.isCleanLine_of_isValid hdestination⟩
    rcases hname with hempty | hflaws
    · rw [hempty]
      nofun
    · exact Name.isCleanLine_of_domainFlaws hflaws
  have hinternal : ∀ host ∈ r.hosts, Endpoint.IsInternal host ↔
      Endpoint.internalSuffix.toList ++ ['\n'] <:+ host.toList := by
    rw [hosts, List.forall_mem_append]
    exact ⟨Endpoint.isInternal_iff_of_isValid hsource,
      Endpoint.isInternal_iff_of_isValid hdestination⟩
  have hclean := fun name hname => Name.isClean_iff_of_isCleanLine (hlines name hname)
  refine ⟨hlines, hinternal, fun hr name hname => (hclean name hname).mp (hr.clean name hname),
    fun hno => ⟨fun name hname => (hclean name hname).mpr (hno name hname), ?_⟩⟩
  intro host hhost hhidden
  -- a host is one of the names
  have hname : host ∈ r.names := by
    simp only [hosts, List.mem_append] at hhost
    simp only [names, Endpoint.names, List.mem_cons, List.mem_append]
    tauto
  exact hno host hname ((List.suffix_append _ _).trans ((hinternal host hhost).mp hhidden))

/-- A rule from an app to all hosts below a domain has clean names. -/
theorem hasCleanNames_iff_wildcard :
    (Service.appRule "shop-2" ".example.org").isValid = true ∧
      (Service.appRule "shop-2" ".example.org").HasCleanNames := by
  have hvalid : (Service.appRule "shop-2" ".example.org").isValid = true := by decide +kernel
  exact ⟨hvalid, (hasCleanNames_iff hvalid).2.2.mpr (by decide +kernel)⟩

/-- Valid rules whose names are not clean: an app with a line break behind its name, and a host
inside a cluster that is hidden by one. -/
theorem not_hasCleanNames :
    ((Service.appRule "shop\n" "example.org").isValid = true ∧
      ¬ (Service.appRule "shop\n" "example.org").HasCleanNames) ∧
    (Service.appRule "shop" "db.cluster.local\n").isValid = true ∧
      ∃ host ∈ (Service.appRule "shop" "db.cluster.local\n").hosts, Endpoint.IsInternal host := by
  refine ⟨⟨by decide +kernel, fun hr => ?_⟩, by decide +kernel, "db.cluster.local\n",
    by decide +kernel, ?_⟩
  · have hclean := hr.clean "shop\n" (by decide +kernel)
    exact absurd (hclean '\n' (by decide +kernel)) (by decide)
  · show Endpoint.internalSuffix.toList <:+ Schema.trim "db.cluster.local\n".toList
    decide +kernel

end Rule

end AccessRules

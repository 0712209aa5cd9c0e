import HidraNet.Core.Netcfg

/-!
# What a stop leaves of the routes and the resolver

`apply` changes a route and then saves the plan that says so, and it replaces resolv.conf and then saves that it did.
Between the two the change is recorded nowhere: a process that dies there leaves its route, or its resolv.conf, behind
(`not_putBack`).  A route that stood where one is added is not recorded either.

`putBack_iff` says exactly where `undo` puts everything back.  Where resolv.conf is left behind whole, `recoverDns` puts
it back from its copy (`recoverDns_putBack`).
-/

namespace HidraNet.Core.Netcfg

open Runs

/-! ### The routes as one list of changes -/

/-- A route changed, and how that is recorded. -/
structure Change where
  dest : String
  route : Route
  via : Bool
deriving DecidableEq

def RevertPlan.record (plan : RevertPlan) (c : Change) : RevertPlan :=
  if c.via then { plan with viaRoutes := plan.viaRoutes ++ [⟨c.dest, c.route.dev⟩] }
  else { plan with routesAdded := plan.routesAdded ++ [c.dest] }

def Draft.change (d : Draft) (c : Change) : Draft :=
  ⟨d.plan.record c, d.effects ++ [.replaceRoute c.dest c.route, .savePlan (d.plan.record c)]⟩

/-- The routes a circuit changes, in their order. -/
def circuitChanges (w : Wanted) (a : Answers) : List Change :=
  match defaultRoute a with
  | .error _ => []
  | .ok (gw, dev) =>
    (if w.nodeIp.isIpv4 then [⟨w.nodeIp.text ++ "/32", ⟨gw, dev⟩, false⟩] else []) ++
      ((w.viaTunnel.filter (·.host.isIpv4)).map fun v => ⟨v.host.text ++ "/32", ⟨none, v.interface⟩, true⟩) ++
      [⟨"0.0.0.0/1", ⟨none, w.interface⟩, false⟩, ⟨"128.0.0.0/1", ⟨none, w.interface⟩, false⟩] ++
      (if w.routeIpv6 then (["::/1", "8000::/1"].filter a.ipv6).map fun r => ⟨r, ⟨none, w.interface⟩, false⟩ else []) ++
      [⟨w.dns ++ "/32", ⟨none, w.interface⟩, true⟩]

variable {w : Wanted} {a : Answers} {s : System} {plan : RevertPlan} {cs rs : List Change} {c u : Change} {d : Draft}
  {p : String}

theorem foldl_change {α : Type} (q : α → Bool) (f : α → Change) (l : List α) (d : Draft) :
    l.foldl (fun d x => if q x = true then d.change (f x) else d) d = ((l.filter q).map f).foldl Draft.change d := by
  induction l generalizing d with
  | nil => rfl
  | cons x l ih =>
    rw [List.foldl_cons, ih]
    cases h : q x <;> simp [h]

theorem applyRoutes_eq {gw : Option String} {dev : String} (h : defaultRoute a = .ok (gw, dev)) (d : Draft) :
    applyRoutes w a d gw dev = (circuitChanges w a).foldl Draft.change d := by
  have hnode : ∀ d : Draft, (if w.nodeIp.isIpv4 = true then d.add (w.nodeIp.text ++ "/32") ⟨gw, dev⟩ else d) =
      (if w.nodeIp.isIpv4 = true then [(⟨w.nodeIp.text ++ "/32", ⟨gw, dev⟩, false⟩ : Change)] else []).foldl
        Draft.change d := by
    intro d
    split <;> rfl
  have hvia : ∀ d : Draft, w.viaTunnel.foldl
      (fun d v => if v.host.isIpv4 = true then d.addVia (v.host.text ++ "/32") v.interface else d) d =
        ((w.viaTunnel.filter (·.host.isIpv4)).map
          fun v => (⟨v.host.text ++ "/32", ⟨none, v.interface⟩, true⟩ : Change)).foldl Draft.change d :=
    foldl_change (fun v => v.host.isIpv4) (fun v => ⟨v.host.text ++ "/32", ⟨none, v.interface⟩, true⟩) w.viaTunnel
  have hipv6 : ∀ d : Draft, ["::/1", "8000::/1"].foldl
      (fun d r => if a.ipv6 r = true then d.add r ⟨none, w.interface⟩ else d) d =
        ((["::/1", "8000::/1"].filter a.ipv6).map
          fun r => (⟨r, ⟨none, w.interface⟩, false⟩ : Change)).foldl Draft.change d :=
    foldl_change a.ipv6 (fun r => ⟨r, ⟨none, w.interface⟩, false⟩) _
  unfold applyRoutes circuitChanges
  rw [h]
  dsimp only
  rw [List.foldl_append, List.foldl_append, List.foldl_append, List.foldl_append, hnode, hvia]
  cases w.routeIpv6 with
  | true =>
    simp only [if_true]
    rw [hipv6]
    rfl
  | false => rfl

/-! ### What a stop leaves of the routes -/

def effectsOf (plan : RevertPlan) : List Change → List Effect
  | [] => []
  | c :: cs => [.replaceRoute c.dest c.route, .savePlan (plan.record c)] ++ effectsOf (plan.record c) cs

theorem foldl_draft (cs : List Change) (d : Draft) :
    cs.foldl Draft.change d = ⟨cs.foldl RevertPlan.record d.plan, d.effects ++ effectsOf d.plan cs⟩ := by
  induction cs generalizing d with
  | nil => simp [effectsOf]
  | cons c cs ih =>
    rw [List.foldl_cons, ih, List.foldl_cons]
    simp [Draft.change, effectsOf]

theorem length_effectsOf (plan : RevertPlan) (cs : List Change) : (effectsOf plan cs).length = 2 * cs.length := by
  induction cs generalizing plan with
  | nil => rfl
  | cons c cs ih =>
    unfold effectsOf
    rw [List.length_append, ih, List.length_cons]
    simp only [List.length_cons, List.length_nil]
    omega

def changed (t : String → Option Route) (cs : List Change) : String → Option Route :=
  cs.foldl (fun t c => Function.update t c.dest (some c.route)) t

theorem changed_concat (t : String → Option Route) (cs : List Change) (c : Change) :
    changed t (cs ++ [c]) = Function.update (changed t cs) c.dest (some c.route) := by
  unfold changed
  rw [List.foldl_append]
  rfl

theorem changed_cases (t : String → Option Route) (cs : List Change) (p : String) :
    (changed t cs p = t p ∧ ∀ c ∈ cs, c.dest ≠ p) ∨ ∃ c ∈ cs, c.dest = p ∧ changed t cs p = some c.route := by
  induction cs using List.reverseRecOn with
  | nil => exact Or.inl ⟨rfl, by simp⟩
  | append_singleton cs c ih =>
    rw [changed_concat]
    by_cases h : p = c.dest
    · subst h
      exact Or.inr ⟨c, by simp, rfl, Function.update_self ..⟩
    · rw [Function.update_of_ne h]
      rcases ih with ⟨hsame, hnot⟩ | ⟨c', hc', hdest, heq⟩
      · refine Or.inl ⟨hsame, fun c' hc' => ?_⟩
        rcases List.mem_append.1 hc' with hc' | hc'
        · exact hnot c' hc'
        · rw [List.mem_singleton.1 hc']
          exact Ne.symm h
      · exact Or.inr ⟨c', List.mem_append_left _ hc', hdest, heq⟩

/-- The plan says what these changes were, and nothing of the resolver. -/
structure Records (plan : RevertPlan) (cs : List Change) : Prop where
  routesAdded : plan.routesAdded = (cs.filter (!·.via)).map Change.dest
  viaRoutes : plan.viaRoutes = (cs.filter (·.via)).map fun c => ⟨c.dest, c.route.dev⟩

theorem Records.record (h : Records plan cs) (c : Change) : Records (plan.record c) (cs ++ [c]) := by
  unfold RevertPlan.record
  cases hvia : c.via with
  | true => exact ⟨by simp [h.routesAdded, hvia], by simp [h.viaRoutes, hvia]⟩
  | false => exact ⟨by simp [h.routesAdded, hvia], by simp [h.viaRoutes, hvia]⟩

theorem dnsChanged_record (plan : RevertPlan) (c : Change) : (plan.record c).dnsChanged = plan.dnsChanged := by
  unfold RevertPlan.record
  split <;> rfl

theorem Records.foldl (h : Records plan rs) (hdns : plan.dnsChanged = false) (hbackup : plan.resolvConfBackup = none)
    (cs : List Change) : Records (cs.foldl RevertPlan.record plan) (rs ++ cs) ∧
      (cs.foldl RevertPlan.record plan).dnsChanged = false ∧
        (cs.foldl RevertPlan.record plan).resolvConfBackup = none := by
  induction cs generalizing plan rs with
  | nil => exact ⟨by simpa using h, hdns, hbackup⟩
  | cons c cs ih =>
    have hkept : (plan.record c).resolvConfBackup = none := by
      unfold RevertPlan.record
      split <;> exact hbackup
    have hrest := ih (h.record c) (by rw [dnsChanged_record, hdns]) hkept
    rw [List.append_assoc] at hrest
    exact hrest

/-- These changes are made and recorded, and then this one made, if any; all else is as in `s₀`. -/
structure Reached (s₀ s : System) (rs : List Change) (u : Option Change) : Prop where
  routes : s.routes = changed s₀.routes (rs ++ u.toList)
  resolvConf : s.resolvConf = s₀.resolvConf
  files : s.files = s₀.files
  plan : ∃ plan, s.plan = some plan ∧ Records plan rs ∧ plan.dnsChanged = false

theorem reached_take {s₀ : System} (h : Reached s₀ s rs none) (hplan : Records plan rs)
    (hdns : plan.dnsChanged = false) (cs : List Change) (i : Nat) :
    Reached s₀ (run perform s ((effectsOf plan cs).take i)) (rs ++ cs.take (i / 2))
      (if i % 2 = 1 then cs[i / 2]? else none) := by
  induction cs generalizing s rs plan i with
  | nil => simpa [effectsOf] using h
  | cons c cs ih =>
    match i with
    | 0 => simpa using h
    | 1 =>
      refine ⟨?_, h.resolvConf, h.files, by simpa [effectsOf, perform] using h.plan⟩
      have hroutes := h.routes
      simp only [Option.toList_none, List.append_nil] at hroutes
      simp only [effectsOf, List.cons_append, List.take_succ_cons, List.take_zero, run_cons, run_nil, perform, hroutes]
      simp [changed_concat]
    | i + 2 =>
      have hnext : Reached s₀ (perform (perform s (.replaceRoute c.dest c.route)) (.savePlan (plan.record c)))
          (rs ++ [c]) none := by
        refine ⟨?_, h.resolvConf, h.files, plan.record c, rfl, hplan.record c, ?_⟩
        · have hroutes := h.routes
          simp only [Option.toList_none, List.append_nil] at hroutes
          simp only [perform, hroutes, Option.toList_none, List.append_nil, changed_concat]
        · rw [dnsChanged_record, hdns]
      have hdiv : (i + 2) / 2 = i / 2 + 1 := by omega
      have hmod : (i + 2) % 2 = i % 2 := by omega
      have hrest := ih hnext (hplan.record c) (by rw [dnsChanged_record, hdns]) i
      rw [hdiv, hmod]
      simpa [effectsOf] using hrest

/-! ### What undoing comes to -/

theorem delVia_routes (s : System) (v : ViaRouteAdded) (p : String) : (delVia s v).routes p =
    if v.dest = p ∧ (s.routes p).any (·.dev = v.interface) = true then none else s.routes p := by
  unfold delVia
  by_cases hp : v.dest = p
  · subst hp
    cases (s.routes v.dest).any (·.dev = v.interface) <;> simp [delRoute]
  · have hsame : (delRoute s v.dest).routes p = s.routes p := Function.update_of_ne (Ne.symm hp) _ _
    cases h : (s.routes v.dest).any (·.dev = v.interface) <;> simp [hp, hsame]

theorem delVias_routes (vs : List ViaRouteAdded) (s : System) (p : String) : (vs.foldl delVia s).routes p =
    if ∃ v ∈ vs, v.dest = p ∧ (s.routes p).any (·.dev = v.interface) = true then none else s.routes p := by
  induction vs generalizing s with
  | nil => simp
  | cons v vs ih =>
    rw [List.foldl_cons, ih, delVia_routes]
    by_cases h : v.dest = p ∧ (s.routes p).any (·.dev = v.interface) = true
    · simp [h]
    · simp [h]

theorem delRoutes_routes (rs : List String) (s : System) (p : String) :
    (rs.foldl delRoute s).routes p = if p ∈ rs then none else s.routes p := by
  induction rs generalizing s with
  | nil => simp
  | cons r rs ih =>
    rw [List.foldl_cons, ih]
    by_cases h : p = r
    · subst h
      simp [delRoute]
    · simp [delRoute, h]

theorem foldl_delVia (vs : List ViaRouteAdded) (s : System) : ∃ t, vs.foldl delVia s = { s with routes := t } := by
  induction vs generalizing s with
  | nil => exact ⟨s.routes, rfl⟩
  | cons v vs ih =>
    obtain ⟨t, ht⟩ := ih (delVia s v)
    rw [List.foldl_cons, ht]
    unfold delVia
    split <;> exact ⟨t, rfl⟩

theorem foldl_delRoute (rs : List String) (s : System) : ∃ t, rs.foldl delRoute s = { s with routes := t } := by
  induction rs generalizing s with
  | nil => exact ⟨s.routes, rfl⟩
  | cons r rs ih =>
    obtain ⟨t, ht⟩ := ih (delRoute s r)
    rw [List.foldl_cons, ht]
    exact ⟨t, rfl⟩

def unrouted (s : System) (plan : RevertPlan) : System :=
  plan.routesAdded.reverse.foldl delRoute (plan.viaRoutes.reverse.foldl delVia s)

theorem unrouted_eq (s : System) (plan : RevertPlan) : ∃ t, unrouted s plan = { s with routes := t } := by
  obtain ⟨t, ht⟩ := foldl_delVia plan.viaRoutes.reverse s
  obtain ⟨t', ht'⟩ := foldl_delRoute plan.routesAdded.reverse { s with routes := t }
  unfold unrouted
  rw [ht, ht']
  exact ⟨t', rfl⟩

theorem unrouted_routes (h : Records plan rs) (s : System) (p : String) : (unrouted s plan).routes p =
    if ∃ r ∈ rs, r.dest = p ∧ (r.via = true → (s.routes p).any (·.dev = r.route.dev) = true) then none
    else s.routes p := by
  have hsplit : (∃ r ∈ rs, r.dest = p ∧ (r.via = true → (s.routes p).any (·.dev = r.route.dev) = true)) ↔
      p ∈ plan.routesAdded.reverse ∨
        ∃ v ∈ plan.viaRoutes.reverse, v.dest = p ∧ (s.routes p).any (·.dev = v.interface) = true := by
    rw [h.routesAdded, h.viaRoutes]
    simp only [List.mem_reverse, List.mem_map, List.mem_filter, Bool.not_eq_true']
    constructor
    · rintro ⟨r, hr, hdest, hdev⟩
      cases hvia : r.via with
      | false => exact Or.inl ⟨r, ⟨hr, hvia⟩, hdest⟩
      | true => exact Or.inr ⟨_, ⟨r, ⟨hr, hvia⟩, rfl⟩, hdest, hdev hvia⟩
    · rintro (⟨r, ⟨hr, hvia⟩, hdest⟩ | ⟨v, ⟨r, ⟨hr, -⟩, rfl⟩, hdest, hdev⟩)
      · exact ⟨r, hr, hdest, fun h => by rw [hvia] at h; cases h⟩
      · exact ⟨r, hr, hdest, fun _ => hdev⟩
  simp only [hsplit]
  unfold unrouted
  rw [delRoutes_routes, delVias_routes]
  by_cases hadded : p ∈ plan.routesAdded.reverse
  · rw [if_pos hadded, if_pos (Or.inl hadded)]
  · rw [if_neg hadded]
    simp only [hadded, false_or]

def Covered (rs : List Change) (u : Change) : Prop :=
  ∃ r ∈ rs, r.dest = u.dest ∧ (r.via = true → r.route.dev = u.route.dev)

instance (rs : List Change) (u : Change) : Decidable (Covered rs u) := by
  unfold Covered
  infer_instance

def RoutesKept (routes : String → Option Route) (rs : List Change) : Option Change → Prop
  | none => ∀ r ∈ rs, routes r.dest = none
  | some u => (∀ r ∈ rs, r.dest ≠ u.dest → routes r.dest = none) ∧
      routes u.dest = if Covered rs u then none else some u.route

instance (routes : String → Option Route) (rs : List Change) (u : Option Change) :
    Decidable (RoutesKept routes rs u) := by
  unfold RoutesKept
  split <;> infer_instance

private theorem undone_changed (t : String → Option Route) (rs : List Change) (p : String) :
    (if ∃ r ∈ rs, r.dest = p ∧ (r.via = true → (changed t rs p).any (·.dev = r.route.dev) = true) then none
      else changed t rs p) = if ∃ r ∈ rs, r.dest = p then none else t p := by
  rcases changed_cases t rs p with ⟨hsame, hnot⟩ | ⟨c, hc, hdest, heq⟩
  · have hno : ¬ ∃ r ∈ rs, r.dest = p := fun ⟨r, hr, hp⟩ => hnot r hr hp
    rw [if_neg fun ⟨r, hr, hp, _⟩ => hno ⟨r, hr, hp⟩, if_neg hno, hsame]
  · rw [if_pos ⟨c, hc, hdest, fun _ => by simp [heq]⟩, if_pos ⟨c, hc, hdest⟩]

theorem unrouted_recorded {t : String → Option Route} (h : s.routes = changed t rs) (hplan : Records plan rs)
    (p : String) : (unrouted s plan).routes p = if ∃ r ∈ rs, r.dest = p then none else t p := by
  rw [unrouted_routes hplan, h]
  exact undone_changed t rs p

theorem unrouted_unrecorded {t : String → Option Route} (h : s.routes = changed t (rs ++ [u]))
    (hplan : Records plan rs) (p : String) :
    (unrouted s plan).routes p = if p = u.dest then (if Covered rs u then none else some u.route)
      else if ∃ r ∈ rs, r.dest = p then none else t p := by
  rw [unrouted_routes hplan, h, changed_concat]
  by_cases hp : p = u.dest
  · subst hp
    have hcovered : (∃ r ∈ rs, r.dest = u.dest ∧ (r.via = true →
        (some u.route).any (·.dev = r.route.dev) = true)) ↔ Covered rs u := by
      unfold Covered
      simp only [Option.any_some, decide_eq_true_iff, eq_comm (b := u.route.dev)]
    rw [Function.update_self, if_pos rfl]
    simp only [hcovered]
  · rw [Function.update_of_ne hp, if_neg hp]
    exact undone_changed t rs p

theorem unrouted_iff {t : String → Option Route} {u : Option Change} (h : s.routes = changed t (rs ++ u.toList))
    (hplan : Records plan rs) : (unrouted s plan).routes = t ↔ RoutesKept t rs u := by
  rw [funext_iff]
  cases u with
  | none =>
    rw [Option.toList_none, List.append_nil] at h
    simp only [unrouted_recorded h hplan]
    constructor
    · intro hall r hr
      have hback := hall r.dest
      rw [if_pos ⟨r, hr, rfl⟩] at hback
      exact hback.symm
    · intro hkept p
      split
      · rename_i hex
        obtain ⟨r, hr, rfl⟩ := hex
        exact (hkept r hr).symm
      · rfl
  | some u =>
    simp only [unrouted_unrecorded h hplan]
    constructor
    · intro hall
      refine ⟨fun r hr hne => ?_, ?_⟩
      · have hback := hall r.dest
        rw [if_neg hne, if_pos ⟨r, hr, rfl⟩] at hback
        exact hback.symm
      · have hback := hall u.dest
        rw [if_pos rfl] at hback
        exact hback.symm
    · rintro ⟨hkept, hu⟩ p
      by_cases hp : p = u.dest
      · rw [if_pos hp, hp]
        exact hu.symm
      · rw [if_neg hp]
        split
        · rename_i hex
          obtain ⟨r, hr, rfl⟩ := hex
          exact (hkept r hr hp).symm
        · rfl

/-! ### The resolver -/

/-- The stop finds resolv.conf as it was, or as the last save says it can be put back. -/
def DnsKept (w : Wanted) (a : Answers) (s : System) (j : Nat) : Prop :=
  if resolvedActive s a then True
  else
    match (originalResolvConf s).link, j with
    | _, 0 | _, 1 | _, 2 => True
    | some _, 3 => s.resolvConf = .file (.utf8 (ours w))
    | some target, _ => s.resolvConf = .link target
    | none, 3 => s.resolvConf = .file (.utf8 "")
    | none, 4 => s.resolvConf = .file (.utf8 (ours w))
    | none, _ => s.resolvConf = .file (.utf8 (originalResolvConf s).content)

instance (w : Wanted) (a : Answers) (s : System) (j : Nat) : Decidable (DnsKept w a s j) := by
  unfold DnsKept
  split
  · infer_instance
  · split <;> infer_instance

/-- The resolver as a plan puts it back. -/
def reresolved (s : System) (plan : RevertPlan) : System :=
  if plan.dnsChanged then
    match plan.resolvConfBackup with
    | some backup => putBackResolvConf s plan.resolvConfLink backup
    | none => s
  else s

theorem undo_eq (h : s.plan = some plan) :
    (undo s).routes = (unrouted s plan).routes ∧ (undo s).resolvConf = (reresolved s plan).resolvConf ∧
      (undo s).files = (reresolved s plan).files ∧ (undo s).saved = (reresolved s plan).saved ∧ (undo s).plan = none := by
  obtain ⟨t, ht⟩ := unrouted_eq s plan
  have hundo : undo s = { reresolved { s with routes := t } plan with plan := none } := by
    rw [← ht]
    unfold undo
    rw [h]
    rfl
  rw [hundo, ht]
  unfold reresolved putBackResolvConf writeResolvConf
  cases plan.dnsChanged with
  | false => exact ⟨rfl, rfl, rfl, rfl, rfl⟩
  | true =>
    cases plan.resolvConfBackup with
    | none => exact ⟨rfl, rfl, rfl, rfl, rfl⟩
    | some backup =>
      cases plan.resolvConfLink with
      | some target => exact ⟨rfl, rfl, rfl, rfl, rfl⟩
      | none => cases s.resolvConf <;> simp

theorem link_of_original (h : (originalResolvConf s).link = none) (target : String) : s.resolvConf ≠ .link target := by
  intro hlink
  have hread : readLink s = some target := by
    unfold readLink
    rw [hlink]
  unfold originalResolvConf at h
  simp [hread] at h

theorem writeResolvConf_file (h : ∀ target, s.resolvConf ≠ .link target) (content : String) :
    writeResolvConf s content = { s with resolvConf := .file (.utf8 content) } := by
  unfold writeResolvConf
  split
  · rename_i target htarget
    exact absurd htarget (h target)
  · rfl

/-- A stop that leaves the routes, and a plan that records them: the resolver decides. -/
structure Leaves (s₀ s s' : System) (rs : List Change) (kept : Prop) : Prop where
  routes : s'.routes = s.routes
  plan : ∃ plan, s'.plan = some plan ∧ Records plan rs ∧
    ((reresolved s' plan).resolvConf = s₀.resolvConf ∧ (reresolved s' plan).files = s₀.files ↔ kept)

theorem leaves_unrecorded {s₀ s' : System} {kept : Prop} (hroutes : s'.routes = s.routes)
    (hplan : ∃ plan, s'.plan = some plan ∧ Records plan rs ∧ plan.dnsChanged = false)
    (hkept : s'.resolvConf = s₀.resolvConf ∧ s'.files = s₀.files ↔ kept) : Leaves s₀ s s' rs kept := by
  obtain ⟨plan, hp, hrec, hdns⟩ := hplan
  refine ⟨hroutes, plan, hp, hrec, ?_⟩
  unfold reresolved
  rw [hdns]
  exact hkept

theorem dns_take {s₀ : System} (h : Reached s₀ s rs none) (hplan : Records plan rs) (hdns : plan.dnsChanged = false)
    (hbackup : plan.resolvConfBackup = none) (j : Nat) :
    Leaves s₀ s (run perform s ((applyDns w a s₀ plan).take j)) rs (DnsKept w a s₀ j) := by
  unfold applyDns DnsKept
  cases hactive : resolvedActive s₀ a with
  | true =>
    simp only [if_true]
    match j with
    | 0 => exact leaves_unrecorded rfl h.plan (by simp [h.resolvConf, h.files])
    | j + 1 =>
      rw [List.take_succ_cons, List.take_nil]
      refine ⟨rfl, { plan with dnsChanged := true }, rfl, ⟨hplan.routesAdded, hplan.viaRoutes⟩, ?_⟩
      simp [reresolved, hbackup, perform, h.resolvConf, h.files]
  | false =>
    simp only [Bool.false_eq_true, if_false]
    cases hlink : (originalResolvConf s₀).link with
    | some target =>
      simp only [Option.isSome_some, if_true, List.cons_append, List.nil_append]
      match j with
      | 0 => exact leaves_unrecorded rfl h.plan (by simp [h.resolvConf, h.files])
      | 1 => exact leaves_unrecorded rfl h.plan (by simp [perform, h.resolvConf, h.files])
      | 2 =>
        refine leaves_unrecorded rfl ⟨_, rfl, ⟨hplan.routesAdded, hplan.viaRoutes⟩, hdns⟩ ?_
        simp [perform, h.resolvConf, h.files]
      | 3 =>
        refine leaves_unrecorded rfl ⟨_, rfl, ⟨hplan.routesAdded, hplan.viaRoutes⟩, hdns⟩ ?_
        simp [perform, h.files, eq_comm]
      | j + 4 =>
        simp only [List.take_succ_cons, List.take_nil]
        refine ⟨rfl, _, rfl, ⟨hplan.routesAdded, hplan.viaRoutes⟩, ?_⟩
        simp [reresolved, putBackResolvConf, perform, h.files, eq_comm]
    | none =>
      -- resolv.conf is no link, so that it is written itself
      have hwrite : ∀ saved plan content, writeResolvConf { s with saved, plan } content =
          { s with saved, plan, resolvConf := .file (.utf8 content) } := by
        intro saved plan content
        exact writeResolvConf_file (fun target => h.resolvConf ▸ link_of_original hlink target) content
      simp only [Option.isSome_none, Bool.false_eq_true, if_false, List.cons_append, List.nil_append]
      match j with
      | 0 => exact leaves_unrecorded rfl h.plan (by simp [h.resolvConf, h.files])
      | 1 => exact leaves_unrecorded rfl h.plan (by simp [perform, h.resolvConf, h.files])
      | 2 =>
        refine leaves_unrecorded rfl ⟨_, rfl, ⟨hplan.routesAdded, hplan.viaRoutes⟩, hdns⟩ ?_
        simp [perform, h.resolvConf, h.files]
      | 3 =>
        simp only [List.take_succ_cons, List.take_zero, run_cons, run_nil, perform, hwrite]
        refine leaves_unrecorded rfl ⟨_, rfl, ⟨hplan.routesAdded, hplan.viaRoutes⟩, hdns⟩ ?_
        simp [h.files, eq_comm]
      | 4 =>
        simp only [List.take_succ_cons, List.take_zero, run_cons, run_nil, perform, hwrite]
        refine leaves_unrecorded rfl ⟨_, rfl, ⟨hplan.routesAdded, hplan.viaRoutes⟩, hdns⟩ ?_
        simp [writeResolvConf, h.files, eq_comm]
      | j + 5 =>
        simp only [List.take_succ_cons, List.take_nil, run_cons, run_nil, perform, hwrite]
        refine ⟨rfl, _, rfl, ⟨hplan.routesAdded, hplan.viaRoutes⟩, ?_⟩
        simp [reresolved, putBackResolvConf, writeResolvConf, h.files, eq_comm]

/-! ### Exactly when everything is put back -/

def resolverReached (w : Wanted) (a : Answers) : Bool :=
  (defaultRoute a).isOk && match a.routeGet with
    | .ok out => routeDevice out = some w.interface
    | .error _ => false

/-- After `n` effects what is changed is recorded, or is as it was, and what is recorded can be put back. -/
def Recorded (w : Wanted) (a : Answers) (s : System) (n : Nat) : Prop :=
  RoutesKept s.routes ((circuitChanges w a).take ((n - 1) / 2))
      (if (n - 1) % 2 = 1 then (circuitChanges w a)[(n - 1) / 2]? else none) ∧
    (resolverReached w a = true → DnsKept w a s (n - 1 - 2 * (circuitChanges w a).length))

instance (w : Wanted) (a : Answers) (s : System) (n : Nat) : Decidable (Recorded w a s n) :=
  inferInstanceAs (Decidable (_ ∧ _))

/-- The routes and the resolver are as they were. -/
structure PutBack (s s' : System) : Prop where
  routes : s'.routes = s.routes
  resolvConf : s'.resolvConf = s.resolvConf
  files : s'.files = s.files

theorem putBack_leaves {s₀ s' : System} {u : Option Change} {kept : Prop} (h : Reached s₀ s rs u)
    (hleaves : Leaves s₀ s s' rs kept) :
    PutBack s₀ (undo s') ↔ RoutesKept s₀.routes rs u ∧ kept := by
  obtain ⟨plan, hs, hplan, hkept⟩ := hleaves.plan
  obtain ⟨hroutes, hconf, hfiles, -, -⟩ := undo_eq hs
  rw [← hkept, ← unrouted_iff (hleaves.routes.trans h.routes) hplan]
  constructor
  · intro hback
    exact ⟨hroutes.symm.trans hback.routes, hconf.symm.trans hback.resolvConf, hfiles.symm.trans hback.files⟩
  · rintro ⟨hr, hc, hf⟩
    exact ⟨hroutes.trans hr, hconf.trans hc, hfiles.trans hf⟩

theorem dnsKept_zero (w : Wanted) (a : Answers) (s : System) : DnsKept w a s 0 := by
  unfold DnsKept
  split
  · trivial
  · cases (originalResolvConf s).link <;> trivial

theorem leaves_reached {s₀ : System} {u : Option Change} {kept : Prop} (h : Reached s₀ s rs u) (hkept : kept) :
    Leaves s₀ s s rs kept :=
  leaves_unrecorded rfl h.plan (iff_of_true ⟨h.resolvConf, h.files⟩ hkept)

/-- A plan as `apply` begins it. -/
structure Begins (plan : RevertPlan) : Prop where
  records : Records plan []
  dnsChanged : plan.dnsChanged = false
  backup : plan.resolvConfBackup = none

theorem apply_eq (w : Wanted) (a : Answers) (s : System) :
    ∃ plan₀ plan, Begins plan₀ ∧ Begins plan ∧
      apply w a s = .savePlan plan₀ :: (effectsOf plan (circuitChanges w a) ++
        if resolverReached w a then applyDns w a s ((circuitChanges w a).foldl RevertPlan.record plan) else []) := by
  unfold apply
  cases h : defaultRoute a with
  | error e =>
    refine ⟨firstPlan w, firstPlan w, ⟨⟨rfl, rfl⟩, rfl, rfl⟩, ⟨⟨rfl, rfl⟩, rfl, rfl⟩, ?_⟩
    have hnone : circuitChanges w a = [] := by
      unfold circuitChanges
      rw [h]
    have hnot : resolverReached w a = false := by
      unfold resolverReached
      rw [h]
      rfl
    rw [hnone, hnot]
    rfl
  | ok via =>
    obtain ⟨gw, dev⟩ := via
    refine ⟨firstPlan w, { firstPlan w with gateway := gw, gatewayIf := some dev }, ⟨⟨rfl, rfl⟩, rfl, rfl⟩,
      ⟨⟨rfl, rfl⟩, rfl, rfl⟩, ?_⟩
    dsimp only
    rw [applyRoutes_eq h, foldl_draft]
    unfold resolverReached
    rw [h]
    dsimp only [Except.isOk, Except.toBool]
    cases a.routeGet with
    | error e => simp
    | ok out => by_cases hout : routeDevice out = some w.interface <;> simp [hout]

theorem apply_take (w : Wanted) (a : Answers) (s : System) (i : Nat) :
    ∃ s₁, Reached s s₁ ((circuitChanges w a).take (i / 2))
        (if i % 2 = 1 then (circuitChanges w a)[i / 2]? else none) ∧
      Leaves s s₁ (run perform s ((apply w a s).take (i + 1))) ((circuitChanges w a).take (i / 2))
        (resolverReached w a = true → DnsKept w a s (i - 2 * (circuitChanges w a).length)) := by
  obtain ⟨plan₀, plan, hbegins₀, hbegins, heq⟩ := apply_eq w a s
  generalize circuitChanges w a = cs at *
  have hstart : Reached s (perform s (.savePlan plan₀)) [] none :=
    ⟨rfl, rfl, rfl, plan₀, rfl, hbegins₀.records, hbegins₀.dnsChanged⟩
  have hroutes := reached_take hstart hbegins.records hbegins.dnsChanged cs i
  rw [List.nil_append] at hroutes
  refine ⟨_, hroutes, ?_⟩
  rw [heq, List.take_succ_cons, run_cons, List.take_append, run_append, length_effectsOf]
  by_cases hi : i ≤ 2 * cs.length
  · rw [Nat.sub_eq_zero_of_le hi, List.take_zero, run_nil]
    exact leaves_reached hroutes fun _ => dnsKept_zero w a s
  · cases hresolver : resolverReached w a with
    | false => simpa using leaves_reached hroutes (by simp)
    | true =>
      -- the routes are all done, and recorded
      have hall : cs.take (i / 2) = cs := List.take_of_length_le (by omega)
      have hnone : cs[i / 2]? = none := List.getElem?_eq_none (by omega)
      rw [hall, hnone, ite_self] at hroutes
      obtain ⟨hrecords, hdns, hbackup⟩ := hbegins.records.foldl hbegins.dnsChanged hbegins.backup cs
      rw [List.nil_append] at hrecords
      simp only [if_true, true_implies]
      rw [hall]
      exact dns_take hroutes hrecords hdns hbackup _

theorem undo_undo (s : System) : undo (undo s) = undo s := by
  cases h : s.plan with
  | none =>
    have hsame : undo s = s := by
      unfold undo
      rw [h]
    rw [hsame, hsame]
  | some plan =>
    have hnone := (undo_eq h).2.2.2.2
    generalize undo s = s' at hnone
    unfold undo
    rw [hnone]

/-- However `apply` ends, at any point: undoing puts the routes and the resolver back just when each change so far is
recorded, or changed nothing, and what is recorded can be put back. -/
theorem putBack_iff (w : Wanted) (a : Answers) {s : System} (hplan : s.plan = none) (n : Nat) (stop : Stop) :
    PutBack s (undo (applyUntil w a s n stop)) ↔ Recorded w a s n := by
  have hstop : undo (applyUntil w a s n stop) = undo (run perform s ((apply w a s).take n)) := by
    cases stop with
    | dies => rfl
    | fails => exact undo_undo _
  rw [hstop]
  cases n with
  | zero =>
    have hsame : undo s = s := by
      unfold undo
      rw [hplan]
    have hrecorded : Recorded w a s 0 := by
      refine ⟨by simp [RoutesKept], fun _ => ?_⟩
      rw [Nat.zero_sub]
      exact dnsKept_zero w a s
    rw [List.take_zero, run_nil, hsame]
    exact iff_of_true ⟨rfl, rfl, rfl⟩ hrecorded
  | succ i =>
    obtain ⟨s₁, hreached, hleaves⟩ := apply_take w a s i
    exact putBack_leaves hreached hleaves

/-! ### The other path of the resolver -/

def SavedResolvConf.conf (saved : SavedResolvConf) : ResolvConf :=
  match saved.link with
  | some target => .link target
  | none => .file (.utf8 saved.content)

theorem startsWith_ours (w : Wanted) : startsWith RESOLV_MARK (ours w) = true := by
  unfold startsWith ours
  rw [List.isPrefixOf_iff_prefix, String.append_assoc, String.append_assoc, String.toList_append]
  exact List.prefix_append _ _

theorem recoverDns_ours {saved : SavedResolvConf} (hplan : s.plan = none) (hsaved : s.saved = some saved)
    (hconf : s.resolvConf = .file (.utf8 (ours w))) : (recoverDns s).resolvConf = saved.conf := by
  have hlink : readLink s = none := by
    unfold readLink
    rw [hconf]
  have hread : readResolvConf s = some (ours w) := by
    unfold readResolvConf
    rw [hconf]
  unfold recoverDns
  rw [hplan, hsaved]
  simp only [hlink, hread, Option.isNone_none, Option.any_some, startsWith_ours, Bool.and_self, if_true]
  unfold putBackResolvConf SavedResolvConf.conf writeResolvConf
  cases saved.link with
  | some target => rfl
  | none => rw [hconf]

theorem recoverDns_undo {saved : SavedResolvConf} (hplan : s.plan = some plan) (hdns : plan.dnsChanged = false)
    (hsaved : s.saved = some saved) (hconf : s.resolvConf = .file (.utf8 (ours w))) :
    (recoverDns (undo s)).resolvConf = saved.conf := by
  obtain ⟨-, hc, -, hs, hnone⟩ := undo_eq hplan
  have hsame : reresolved s plan = s := by
    unfold reresolved
    rw [hdns]
    rfl
  rw [hsame] at hc hs
  exact recoverDns_ours hnone (hs.trans hsaved) (hc.trans hconf)

theorem recoverDns_putBack {s₀ : System} (h : Reached s₀ s rs none) (hdns : plan.dnsChanged = false)
    (hactive : resolvedActive s₀ a = false) :
    (recoverDns (undo (run perform s ((applyDns w a s₀ plan).take
      (if (originalResolvConf s₀).link.isSome then 3 else 4))))).resolvConf = (originalResolvConf s₀).conf := by
  unfold applyDns
  rw [hactive]
  simp only [Bool.false_eq_true, if_false]
  cases hlink : (originalResolvConf s₀).link with
  | some target =>
    simp only [Option.isSome_some, if_true, List.cons_append, List.nil_append, List.take_succ_cons, List.take_zero,
      run_cons, run_nil, perform]
    exact recoverDns_undo rfl hdns rfl rfl
  | none =>
    have hwrite : ∀ saved plan content, writeResolvConf { s with saved, plan } content =
        { s with saved, plan, resolvConf := .file (.utf8 content) } :=
      fun _ _ => writeResolvConf_file fun target => h.resolvConf ▸ link_of_original hlink target
    simp only [Option.isSome_none, Bool.false_eq_true, if_false, List.cons_append, List.nil_append,
      List.take_succ_cons, List.take_zero, run_cons, run_nil, perform, hwrite]
    exact recoverDns_undo rfl hdns rfl rfl

private def machine : System :=
  ⟨fun _ => none, .file (.utf8 "nameserver 192.168.1.1\n"), fun _ => none, none, none⟩

private def oneHop : Wanted := ⟨"hvpn0", ⟨"203.0.113.1", true⟩, "10.77.0.1", true, []⟩

private def online : Answers :=
  ⟨.ok "default via 10.0.0.1 dev eth0 proto dhcp", fun _ => true, .ok "10.77.0.1 dev hvpn0 src 10.77.0.2", false⟩

/-- A process that dies when all is done is undone. -/
theorem putBack_done : PutBack machine (undo (applyUntil oneHop online machine 18 .dies)) :=
  (putBack_iff oneHop online rfl 18 .dies).2 (by decide)

/-- A process that dies when it has added its first route leaves it behind; one that dies when it has written resolv.conf
leaves that. -/
theorem not_putBack : ∃ (w : Wanted) (a : Answers) (s : System), s.plan = none ∧
    (undo (applyUntil w a s 2 .dies)).routes "203.0.113.1/32" = some ⟨some "10.0.0.1", "eth0"⟩ ∧
      ¬ PutBack s (undo (applyUntil w a s 2 .dies)) ∧
        (undo (applyUntil w a s 17 .dies)).resolvConf = .file (.utf8 (ours w)) ∧
          ¬ PutBack s (undo (applyUntil w a s 17 .dies)) := by
  refine ⟨oneHop, online, machine, rfl, by decide, fun h => ?_, by decide, fun h => ?_⟩
  · have hroute := congrFun h.routes "203.0.113.1/32"
    revert hroute
    decide
  · have hconf := h.resolvConf
    revert hconf
    decide

end HidraNet.Core.Netcfg

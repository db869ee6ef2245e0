import OnTaskGraph.NodeDiscovery

/-! The proxy of a discovery. `runDiscovery` looks up the proxy of the node beside the
creation of the graph, and puts it into the configuration when it is there; the
creation reads the configuration when it has found the definition. -/

namespace OnTaskGraph

inductive ProxyLookup
  | pending
  | settled (answer : Except Rejection (Option String))

/-- The proxy that the lookup has resolved to. -/
def ProxyLookup.proxy : ProxyLookup → Option String
  | .settled (.ok proxy) => truthy proxy
  | _ => none

/-- Each discovery has its own configuration, and the call of `createAndRunGraph` that
it makes has its name. -/
structure Discoveries where
  workflows : Workflows
  lookups : CallId → Option ProxyLookup

inductive DiscoveryEvent
  | runDiscovery (c : CallId) (node : NodeDocument) (options : NodeOptions)
  | nodeIdToProxy (c : CallId) (answer : Except Rejection (Option String))
  /-- What a call of `createAndRunGraph` waits for is answered. -/
  | workflow (e : CallEvent)

/-- The calls of `createAndRunGraph` and their configurations are those of the discoveries. -/
def CallEvent.isAnswer : CallEvent → Bool
  | .createAndRunGraph _ _ _ | .setContext _ _ => false
  | _ => true

/-- The call has not yet read the context of its configuration. -/
def CallStage.unread : CallStage → Bool
  | .needByIdentifier _ | .envGet _ _ | .lookups _ _ _ _ => true
  | _ => false

/-- The graph that a call has created. -/
def CallStage.graph : CallStage → Option GraphObject
  | .persist _ G | .publishGraphStarted G | .graphProgress G | .resolved G => some G
  | _ => none

namespace Discoveries

variable (configFile : String → Option String) (json : DiscoveryOptions → Json) (defaultTaskDomain : String)

def start (brought : Nat → Context) : Discoveries := ⟨Workflows.start brought, fun _ => none⟩

def configuration (d : DiscoveryConfiguration) : Configuration := ⟨some d.name, some (json d.options), none, none⟩

/-- `configuration.context = {proxy: proxy}` -/
def assign (s : Discoveries) (c : CallId) (proxy : String) : Option Workflows :=
  (s.workflows.setContext (.caller c) ⟨none, some proxy⟩).step defaultTaskDomain (.setContext c c)

def step (s : Discoveries) : DiscoveryEvent → Option Discoveries
  | .runDiscovery c node options =>
    match s.lookups c, ProfileApi.discoveryConfiguration configFile node options with
    | none, .ok d =>
      (s.workflows.step defaultTaskDomain (.createAndRunGraph c (configuration json d) none)).map fun W =>
        ⟨W, Function.update s.lookups c (some .pending)⟩
    | none, .error _ => some s
    | some _, _ => none
  | .nodeIdToProxy c answer =>
    match s.lookups c with
    | some .pending =>
      let lookups := Function.update s.lookups c (some (.settled answer))
      match (ProxyLookup.settled answer).proxy with
      | some proxy => (s.assign defaultTaskDomain c proxy).map fun W => ⟨W, lookups⟩
      | none => some ⟨s.workflows, lookups⟩
    | _ => none
  | .workflow e =>
    if e.isAnswer then (s.workflows.step defaultTaskDomain e).map fun W => { s with workflows := W } else none

/-- The calls whose proxy has come after they had read their context. -/
def watchLate (s : Discoveries) (e : DiscoveryEvent) (_ : Discoveries) (late : List CallId) : List CallId :=
  match e with
  | .nodeIdToProxy c answer =>
    if (ProxyLookup.settled answer).proxy.isSome && (s.workflows.calls c).any (!·.stage.unread) then c :: late
    else late
  | _ => late

def graph (s : Discoveries) (c : CallId) : Option GraphObject :=
  (s.workflows.calls c).bind fun call => call.stage.graph

/-- The graphs that were created have in their contexts the proxies that the lookups
have resolved to. -/
def HasProxies (s : Discoveries) : Prop :=
  ∀ c G l proxy, s.graph c = some G → s.lookups c = some l → l.proxy = some proxy → G.context.proxy = some proxy

/-- What the stage of a call tells of its context. -/
def StageRight (c : CallId) (context : Option ContextId) (l : ProxyLookup) (late : Bool) : CallStage → Prop
  | .lookups node _ _ _ =>
    node = none ∧ late = false ∧ context = if l.proxy.isSome then some (.caller c) else none
  | .createGraph node _ x => node = none ∧ x = if !late && l.proxy.isSome then .caller c else .own c
  | .persist _ G | .publishGraphStarted G | .graphProgress G | .resolved G =>
    G.context = ⟨none, if late then none else l.proxy⟩
  | .rejected _ => True
  | _ => False

structure Served (s : Discoveries) (late : List CallId) : Prop where
  own : ∀ c, s.workflows.contexts (.own c) = ⟨none, none⟩
  made : ∀ c l proxy, s.lookups c = some l → l.proxy = some proxy →
    s.workflows.contexts (.caller c) = ⟨none, some proxy⟩
  stages : ∀ c call, s.workflows.calls c = some call → ∃ l, s.lookups c = some l ∧
    StageRight c call.configuration.context l (decide (c ∈ late)) call.stage
  late : ∀ c ∈ late, ∃ l, s.lookups c = some l ∧ l.proxy.isSome = true

variable {configFile} {json} {defaultTaskDomain} {s s' : Discoveries} {late : List CallId}

theorem Served.goes {c : CallId} {call call' : GraphCall} {W : Workflows} (h : Served s late)
    (hcall : s.workflows.calls c = some call) (hcontexts : W.contexts = s.workflows.contexts)
    (hcalls : W.calls = Function.update s.workflows.calls c (some call'))
    (hstage :
      ∀ l, s.lookups c = some l → StageRight c call.configuration.context l (decide (c ∈ late)) call.stage →
      StageRight c call'.configuration.context l (decide (c ∈ late)) call'.stage) :
    Served { s with workflows := W } late where
  own c' := by rw [hcontexts]; exact h.own c'
  made c' l proxy hl hp := by rw [hcontexts]; exact h.made c' l proxy hl hp
  stages c' y hy := by
    simp only [hcalls, Function.update_apply] at hy
    split_ifs at hy with hc
    · obtain rfl := hc
      obtain rfl := Option.some.inj hy
      obtain ⟨l, hl, hright⟩ := h.stages c' call hcall
      exact ⟨l, hl, hstage l hl hright⟩
    · exact h.stages c' y hy
  late := h.late

/-- The context that is read at the end of the lookups is the one of the proxy, if it is there. -/
theorem StageRight.created {c : CallId} {call : GraphCall} {l : ProxyLookup} {node : Option Node}
    {definition : Json} {x : ContextId} (h : Served s late) (hl : s.lookups c = some l)
    (hright : StageRight c call.configuration.context l (decide (c ∈ late)) (.createGraph node definition x)) :
    s.workflows.contexts x = ⟨none, if decide (c ∈ late) then none else l.proxy⟩ := by
  obtain ⟨_, rfl⟩ := hright
  by_cases hc : c ∈ late
  · simp [hc, h.own c]
  · cases hp : l.proxy with
    | none => simp [hc, h.own c]
    | some proxy => simp [hc, h.made c l proxy hl hp]

theorem Served.workflow {e : CallEvent} {W : Workflows} (h : Served s late) (hanswer : e.isAnswer = true)
    (hstep : s.workflows.step defaultTaskDomain e = some W) : Served { s with workflows := W } late := by
  cases Workflows.step_change hstep with
  | called | assigned => simp [CallEvent.isAnswer] at hanswer
  | moved hcall hmoves =>
    refine h.goes hcall rfl rfl fun l _ hright => ?_
    generalize hs : GraphCall.stage _ = stage at hmoves hright
    cases hmoves with
    | node | env => exact absurd hright id
    | @definitions node name activeGraph answer =>
      match answer with
      | .error r => trivial
      | .ok [] => trivial
      | .ok (definition :: _) => exact hright
    | published => exact hright
    | rejected => trivial
  | checked hcall hstage | prepared hcall hstage | proxied hcall hstage =>
    obtain ⟨l, _, hright⟩ := h.stages _ _ hcall
    rw [hstage] at hright
    simp [StageRight] at hright
  | @nodeless c call name definition hcall hstage =>
    refine h.goes hcall rfl rfl fun l _ hright => ?_
    rw [hstage] at hright
    obtain ⟨_, hlate, hcontext⟩ := hright
    refine ⟨rfl, ?_⟩
    rw [GraphCall.context, hcontext, hlate]
    cases l.proxy <;> rfl
  | @created c call node definition x hcall hstage =>
    refine h.goes (W := { s.workflows.setCall c _ with instances := s.workflows.instances + 1 }) hcall rfl rfl
      fun l hl hright => ?_
    rw [hstage] at hright
    exact StageRight.created h hl hright
  | @persisted c call node G hcall hstage =>
    refine h.goes hcall rfl rfl fun l _ hright => ?_
    rwa [hstage] at hright
  | @resolved c call G hcall hstage =>
    refine h.goes hcall rfl rfl fun l _ hright => ?_
    rwa [hstage] at hright
  | finished => exact ⟨h.own, h.made, h.stages, h.late⟩

theorem Served.run {c : CallId} {node : NodeDocument} {options : NodeOptions} (h : Served s late)
    (hstep : s.step configFile json defaultTaskDomain (.runDiscovery c node options) = some s') :
    Served s' late := by
  simp only [step] at hstep
  split at hstep
  · rename_i d hnone _
    obtain ⟨W, hW, rfl⟩ := Option.map_eq_some_iff.mp hstep
    simp only [Workflows.step] at hW
    split at hW
    · obtain rfl := Option.some.inj hW
      have hc : c ∉ late := fun hc => by
        obtain ⟨l, hl, _⟩ := h.late c hc
        simp [hnone] at hl
      have hlookup : ∀ c' l, s.lookups c' = some l →
          Function.update s.lookups c (some ProxyLookup.pending) c' = some l := by
        intro c' l hl
        rw [Function.update_of_ne (by rintro rfl; simp [hnone] at hl), hl]
      refine ⟨h.own, fun c' l proxy hl hp => ?_, fun c' y hy => ?_, fun c' hc' => ?_⟩
      · simp only [Function.update_apply] at hl
        split_ifs at hl
        · obtain rfl := Option.some.inj hl
          simp [ProxyLookup.proxy] at hp
        · exact h.made c' l proxy hl hp
      · simp only [Workflows.setCall, Function.update_apply] at hy
        split_ifs at hy with heq
        · obtain rfl := heq
          obtain rfl := Option.some.inj hy
          refine ⟨.pending, Function.update_self .., ?_⟩
          simp only [createAndRunGraph, configuration]
          cases truthy (some d.name) with
          | none => trivial
          | some name => exact ⟨rfl, by simp [hc], rfl⟩
        · obtain ⟨l, hl, hright⟩ := h.stages c' y hy
          exact ⟨l, hlookup c' l hl, hright⟩
      · obtain ⟨l, hl, hp⟩ := h.late c' hc'
        exact ⟨l, hlookup c' l hl, hp⟩
    · simp at hW
  · exact Option.some.inj hstep ▸ h
  · simp at hstep

theorem StageRight.congr {c : CallId} {context : Option ContextId} {l l' : ProxyLookup} {isLate : Bool}
    {stage : CallStage} (h : StageRight c context l isLate stage) (hproxy : l.proxy = l'.proxy) :
    StageRight c context l' isLate stage := by
  cases stage <;> simp_all [StageRight]

/-- What a stage tells stays right when the lookup of the call resolves to `proxy`. -/
theorem StageRight.settled {c : CallId} {context : Option ContextId} {proxy : String}
    {answer : Except Rejection (Option String)} {stage : CallStage}
    (h : StageRight c context .pending false stage) (hp : (ProxyLookup.settled answer).proxy = some proxy) :
    StageRight c (some (.caller c)) (.settled answer) (!stage.unread) stage := by
  cases stage with
  | lookups node name definition activeGraph => exact ⟨h.1, rfl, by simp [hp]⟩
  | createGraph node definition x => exact ⟨h.1, by simpa [CallStage.unread, ProxyLookup.proxy] using h.2⟩
  | persist node G | publishGraphStarted G | graphProgress G | resolved G => exact h
  | rejected reason => trivial
  | needByIdentifier | envGet | nodeIdToProxy => exact h

/-- The lookup of a call is answered; the other calls and what they read stay as they were. -/
theorem Served.answered {c : CallId} {answer : Except Rejection (Option String)} {W : Workflows}
    {late' : List CallId} (h : Served s late) (hown : ∀ c', W.contexts (.own c') = s.workflows.contexts (.own c'))
    (hcaller : ∀ c', c' ≠ c → W.contexts (.caller c') = s.workflows.contexts (.caller c'))
    (hmade :
      ∀ proxy, (ProxyLookup.settled answer).proxy = some proxy → W.contexts (.caller c) = ⟨none, some proxy⟩)
    (hcalls : ∀ c', c' ≠ c → W.calls c' = s.workflows.calls c')
    (hstage : ∀ y, W.calls c = some y →
      StageRight c y.configuration.context (.settled answer) (decide (c ∈ late')) y.stage)
    (hlate : ∀ c', c' ≠ c → (c' ∈ late' ↔ c' ∈ late))
    (hproxy : c ∈ late' → (ProxyLookup.settled answer).proxy.isSome = true) :
    Served ⟨W, Function.update s.lookups c (some (.settled answer))⟩ late' := by
  have hself : Function.update s.lookups c (some (ProxyLookup.settled answer)) c = some (.settled answer) :=
    Function.update_self ..
  have hother : ∀ c', c' ≠ c →
      Function.update s.lookups c (some (ProxyLookup.settled answer)) c' = s.lookups c' :=
    fun c' hne => Function.update_of_ne hne ..
  refine ⟨fun c' => (hown c').trans (h.own c'), fun c' l proxy hl hp => ?_, fun c' y hy => ?_, fun c' hc' => ?_⟩
  · by_cases hne : c' = c
    · subst hne
      obtain rfl := Option.some.inj (hself.symm.trans hl)
      exact hmade proxy hp
    · exact (hcaller c' hne).trans (h.made c' l proxy ((hother c' hne).symm.trans hl) hp)
  · by_cases hne : c' = c
    · subst hne
      exact ⟨_, hself, hstage y hy⟩
    · obtain ⟨l, hl, hright⟩ := h.stages c' y ((hcalls c' hne).symm.trans hy)
      refine ⟨l, (hother c' hne).trans hl, ?_⟩
      simpa only [hlate c' hne] using hright
  · by_cases hne : c' = c
    · subst hne
      exact ⟨_, hself, hproxy hc'⟩
    · obtain ⟨l, hl, hp⟩ := h.late c' ((hlate c' hne).mp hc')
      exact ⟨l, (hother c' hne).trans hl, hp⟩

theorem Served.settle {c : CallId} {answer : Except Rejection (Option String)} (h : Served s late)
    (hstep : s.step configFile json defaultTaskDomain (.nodeIdToProxy c answer) = some s') :
    Served s' (s.watchLate (.nodeIdToProxy c answer) s' late) := by
  simp only [step] at hstep
  split at hstep
  · rename_i hpending
    have hc : c ∉ late := fun hc => by
      obtain ⟨l, hl, hp⟩ := h.late c hc
      obtain rfl := Option.some.inj (hpending.symm.trans hl)
      simp [ProxyLookup.proxy] at hp
    have hright :
        ∀ y, s.workflows.calls c = some y → StageRight c y.configuration.context .pending false y.stage := by
      intro y hy
      obtain ⟨l, hl, hright⟩ := h.stages c y hy
      obtain rfl := Option.some.inj (hpending.symm.trans hl)
      simpa [hc] using hright
    split at hstep
    · rename_i proxy hp
      obtain ⟨W, hW, rfl⟩ := Option.map_eq_some_iff.mp hstep
      obtain ⟨call, hcall, rfl⟩ := Option.map_eq_some_iff.mp hW
      have hcall : s.workflows.calls c = some call := hcall
      have hwatch : ∀ t, s.watchLate (.nodeIdToProxy c answer) t late =
          if !call.stage.unread then c :: late else late := by
        simp [watchLate, hp, hcall]
      have hlate : decide (c ∈ if !call.stage.unread then c :: late else late) = !call.stage.unread := by
        cases call.stage.unread <;> simp [hc]
      rw [hwatch]
      refine h.answered (fun c' => ?_) (fun c' hne => ?_) (fun proxy' hp' => ?_) (fun c' hne => ?_)
        (fun y hy => ?_) (fun c' hne => ?_) fun _ => by simp [hp]
      · simp [Workflows.setCall, Workflows.setContext]
      · simp [Workflows.setCall, Workflows.setContext, hne]
      · obtain rfl := Option.some.inj (hp.symm.trans hp')
        simp [Workflows.setCall, Workflows.setContext]
      · simp [Workflows.setCall, Workflows.setContext, hne]
      · simp only [Workflows.setCall, Function.update_self, Option.some.injEq] at hy
        obtain rfl := hy
        rw [hlate]
        exact (hright call hcall).settled hp
      · split_ifs <;> simp [hne]
    · rename_i hp
      obtain rfl := Option.some.inj hstep
      have hwatch : ∀ t, s.watchLate (.nodeIdToProxy c answer) t late = late := by
        simp [watchLate, hp]
      rw [hwatch]
      refine h.answered (fun _ => rfl) (fun _ _ => rfl) (fun proxy hp' => by simp [hp] at hp') (fun _ _ => rfl)
        (fun y hy => ?_) (fun _ _ => Iff.rfl) fun hmem => absurd hmem hc
      simp only [hc, decide_false]
      exact (hright y hy).congr hp.symm
  · simp at hstep

theorem Served.step {e : DiscoveryEvent} (h : Served s late)
    (hstep : s.step configFile json defaultTaskDomain e = some s') : Served s' (s.watchLate e s' late) := by
  cases e with
  | runDiscovery c node options => exact h.run hstep
  | nodeIdToProxy c answer => exact h.settle hstep
  | workflow e =>
    simp only [Discoveries.step] at hstep
    split_ifs at hstep with hanswer
    obtain ⟨W, hW, rfl⟩ := Option.map_eq_some_iff.mp hstep
    exact h.workflow hanswer hW

theorem served_start (brought : Nat → Context) : Served (start brought) [] where
  own _ := rfl
  made c l proxy hl := by simp [start] at hl
  stages c call hcall := by simp [start, Workflows.start] at hcall
  late := by simp

theorem served_run {brought : Nat → Context} {es : List DiscoveryEvent}
    (hrun : Lts.exec (Lts.monitor (Discoveries.step configFile json defaultTaskDomain) watchLate)
      (start brought, []) es =
      some (s, late)) : Served s late :=
  Lts.invariant (fun x => Served x.1 x.2) (fun x e y hstep h => by
    obtain ⟨hstep, hwatch⟩ := Lts.monitor_eq_some.mp hstep
    rw [hwatch]
    exact h.step hstep) (served_start brought) hrun

/-- The context of a graph is fixed by the answer to the lookup and by whether it came late. -/
theorem Served.context {c : CallId} {G : GraphObject} {l : ProxyLookup} (h : Served s late)
    (hG : s.graph c = some G)
    (hl : s.lookups c = some l) : G.context = ⟨none, if c ∈ late then none else l.proxy⟩ := by
  obtain ⟨call, hcall, hgraph⟩ := Option.bind_eq_some_iff.mp hG
  obtain ⟨l', hl', hright⟩ := h.stages c call hcall
  obtain rfl := Option.some.inj (hl.symm.trans hl')
  cases hs : call.stage with
  | persist node G' | publishGraphStarted G' | graphProgress G' | resolved G' =>
    rw [hs] at hgraph hright
    obtain rfl := Option.some.inj hgraph
    simpa [StageRight] using hright
  | _ => simp [hs, CallStage.graph] at hgraph

/-- In every run the graphs have their proxies just if no proxy came after the graph's
context had been read; and two runs give a discovery the same context just if its proxy
came late in both or in neither. -/
theorem discovery_context (configFile : String → Option String) (json : DiscoveryOptions → Json)
    (defaultTaskDomain : String) (brought : Nat → Context) (es : List DiscoveryEvent) (s : Discoveries)
    (late : List CallId)
    (hrun : Lts.exec (Lts.monitor (Discoveries.step configFile json defaultTaskDomain) watchLate)
      (start brought, []) es = some (s, late)) :
    (HasProxies s ↔ ∀ c ∈ late, s.graph c = none) ∧
    ∀ es' s' late', Lts.exec (Lts.monitor (Discoveries.step configFile json defaultTaskDomain) watchLate)
        (start brought, []) es' = some (s', late') →
      ∀ c G G' l, s.graph c = some G → s'.graph c = some G' → s.lookups c = some l → s'.lookups c = some l →
        (G.context = G'.context ↔ (c ∈ late ↔ c ∈ late')) := by
  have h := served_run hrun
  constructor
  · constructor
    · intro hproxies c hc
      obtain ⟨l, hl, hp⟩ := h.late c hc
      obtain ⟨proxy, hproxy⟩ := Option.isSome_iff_exists.mp hp
      by_contra hne
      obtain ⟨G, hG⟩ := Option.ne_none_iff_exists'.mp hne
      have hcontext := h.context hG hl
      rw [if_pos hc] at hcontext
      simpa [hcontext] using hproxies c G l proxy hG hl hproxy
    · intro hlate c G l proxy hG hl hproxy
      have hc : c ∉ late := fun hc => by simp [hlate c hc] at hG
      rw [h.context hG hl, if_neg hc, hproxy]
  · intro es' s' late' hrun' c G G' l hG hG' hl hl'
    have h' := served_run hrun'
    rw [h.context hG hl, h'.context hG' hl']
    have hproxy : c ∈ late ∨ c ∈ late' → ∃ proxy, l.proxy = some proxy := by
      rintro (hc | hc)
      · obtain ⟨l', hl', hp⟩ := h.late c hc
        exact Option.isSome_iff_exists.mp (Option.some.inj (hl.symm.trans hl') ▸ hp)
      · obtain ⟨l'', hl'', hp⟩ := h'.late c hc
        exact Option.isSome_iff_exists.mp (Option.some.inj (hl'.symm.trans hl'') ▸ hp)
    by_cases hc : c ∈ late
    · obtain ⟨proxy, hp⟩ := hproxy (Or.inl hc)
      by_cases hc' : c ∈ late' <;> simp [hc, hc', hp]
    · by_cases hc' : c ∈ late'
      · obtain ⟨proxy, hp⟩ := hproxy (Or.inr hc')
        simp [hc, hc', hp]
      · simp [hc, hc']

/-- Discovery 0 is answered as given, while discovery 1, whose node has no proxy, goes on. -/
def twoDiscoveries (answers : List DiscoveryEvent) : Option (Discoveries × List CallId) :=
  Lts.exec (Lts.monitor (Discoveries.step (fun _ => none) (fun _ => "") "default") watchLate)
    (start fun _ => ⟨none, none⟩, [])
    ([.runDiscovery 0 ⟨0, "52:54:00", ["52:54:00"], "compute", false⟩ ⟨"compute", none⟩,
      .runDiscovery 1 ⟨1, "52:54:01", ["52:54:01"], "compute", false⟩ ⟨"compute", none⟩,
      .workflow (.getGraphDefinitions 1 (.ok ["discovery"])), .workflow (.spread 1)] ++ answers ++
      [.workflow (.createGraph 0 none), .workflow (.persist 0 none), .nodeIdToProxy 1 (.ok none),
        .workflow (.createGraph 1 none), .workflow (.persist 1 none)])

def proxyAnswer : DiscoveryEvent := .nodeIdToProxy 0 (.ok (some "http://10.1.1.1"))

def definitionsAnswer : DiscoveryEvent := .workflow (.getGraphDefinitions 0 (.ok ["discovery"]))

theorem of_twoDiscoveries (answers : List DiscoveryEvent) (late : List CallId)
    (hlate : (twoDiscoveries answers).map Prod.snd = some late)
    (hgraph : ((twoDiscoveries answers).bind fun x => x.1.graph 0).isSome = true)
    (hl :
      (twoDiscoveries answers).bind (fun x => x.1.lookups 0) = some (.settled (.ok (some "http://10.1.1.1")))) :
    ∃ s G, twoDiscoveries answers = some (s, late) ∧ s.graph 0 = some G ∧
      s.lookups 0 = some (.settled (.ok (some "http://10.1.1.1"))) := by
  obtain ⟨⟨s, late'⟩, hrun, rfl⟩ := Option.map_eq_some_iff.mp hlate
  rw [hrun] at hgraph hl
  obtain ⟨G, hG⟩ := Option.isSome_iff_exists.mp hgraph
  exact ⟨s, G, hrun, hG, hl⟩

/-- The proxy is there before the definitions, before the context is read, or after it. -/
theorem discovery_context_proxied : ∃ s₁ s₂ s₃ G₁ G₂ G₃,
    twoDiscoveries [proxyAnswer, definitionsAnswer, .workflow (.spread 0)] = some (s₁, []) ∧
    twoDiscoveries [definitionsAnswer, proxyAnswer, .workflow (.spread 0)] = some (s₂, []) ∧
    twoDiscoveries [definitionsAnswer, .workflow (.spread 0), proxyAnswer] = some (s₃, [0]) ∧
    s₁.graph 0 = some G₁ ∧ s₂.graph 0 = some G₂ ∧ s₃.graph 0 = some G₃ ∧
    HasProxies s₁ ∧ ¬ HasProxies s₃ ∧ G₁.context = G₂.context ∧ G₁.context ≠ G₃.context := by
  obtain ⟨s₁, G₁, h₁, hG₁, hl₁⟩ := of_twoDiscoveries
    [proxyAnswer, definitionsAnswer, .workflow (.spread 0)] [] (by decide +kernel) (by decide +kernel) rfl
  obtain ⟨s₂, G₂, h₂, hG₂, hl₂⟩ := of_twoDiscoveries
    [definitionsAnswer, proxyAnswer, .workflow (.spread 0)] [] (by decide +kernel) (by decide +kernel) rfl
  obtain ⟨s₃, G₃, h₃, hG₃, hl₃⟩ := of_twoDiscoveries
    [definitionsAnswer, .workflow (.spread 0), proxyAnswer] [0] (by decide +kernel) (by decide +kernel) rfl
  obtain ⟨hproxies, hruns⟩ := discovery_context (fun _ => none) (fun _ => "") "default" _ _ _ _ h₁
  obtain ⟨hlate, -⟩ := discovery_context (fun _ => none) (fun _ => "") "default" _ _ _ _ h₃
  have hsame := hruns _ s₂ [] h₂ 0 G₁ G₂ _ hG₁ hG₂ hl₁ hl₂
  have hdiffer := hruns _ s₃ [0] h₃ 0 G₁ G₃ _ hG₁ hG₃ hl₁ hl₃
  refine ⟨s₁, s₂, s₃, G₁, G₂, G₃, h₁, h₂, h₃, hG₁, hG₂, hG₃, hproxies.mpr (by simp), fun h => ?_,
    hsame.mpr Iff.rfl, fun h => ?_⟩
  · simpa [hG₃] using hlate.mp h 0 List.mem_cons_self
  · simpa using hdiffer.mp h

/-- The proxy comes when the definition has been read, and the graph is without it. -/
theorem discovery_context_late : ∃ s late, Lts.exec
    (Lts.monitor (Discoveries.step (fun _ => none) (fun _ => "") "default") watchLate)
      (start fun _ => ⟨none, none⟩, [])
    [.runDiscovery 0 ⟨0, "52:54:00", ["52:54:00"], "compute", false⟩ ⟨"compute", none⟩,
      .workflow (.getGraphDefinitions 0 (.ok ["discovery"])), .workflow (.spread 0),
      .nodeIdToProxy 0 (.ok (some "http://10.1.1.1")), .workflow (.createGraph 0 none),
      .workflow (.persist 0 none)] =
      some (s, late) ∧ ¬ HasProxies s := by
  refine ⟨_, _, rfl, fun h => ?_⟩
  have hproxy : (none : Option String) = some "http://10.1.1.1" := h 0 _ _ "http://10.1.1.1" rfl rfl (by decide)
  exact absurd hproxy (by decide)

end Discoveries

end OnTaskGraph

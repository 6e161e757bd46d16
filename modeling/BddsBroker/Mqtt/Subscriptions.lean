import BddsBroker.Lib.Lists
import BddsBroker.Mqtt.Answers
import BddsBroker.Mqtt.AtMostOnce
import BddsBroker.Mqtt.Topics

/-! SUBSCRIBE. The session is registered under the first filter of the packet: the whole list
is fetched into `subscription_list`, which nothing reads. So all filters are registered exactly
when the others name topics that the session is listed under already, or are equal to the
first one (`registersAll_iff`). A session is added again by every SUBSCRIBE, whether or not it
is listed, so subscribing is idempotent for exactly those sequences of packets in which no
session repeats a first filter (`idempotent_iff`). -/

namespace BddsBroker.Subscriptions

open MqttSession Proc Program

variable {L : Libraries} {s : SessionPtr} {recvData : List UInt8} {b : Broker L}

/-! ## One SUBSCRIBE -/

theorem ends_retain {f : Frame L} {Q : Unit → Frame L → Prop} {E : Stop → Frame L → Prop} :
    Ends (retain L s) f Q E ↔
      if f.broker.brokerCache = [] then Q () f
      else Q () ⟨f.broker.setRetainMessages s, "after subscribe"⟩ := by
  unfold retain
  rw [ends_bind, ends_get]
  split <;> simp

/-- The branch of a SUBSCRIBE: the session is registered under the first filter, before the
SUBACK is made. -/
theorem ends_subscribe {status : String} {Q : Unit → Frame L → Prop} {E : Stop → Frame L → Prop} :
    Ends (subscribe L s recvData) ⟨b, status⟩ Q E ↔
      match L.interpretSubscribePacket recvData with
      | .error what => E (.thrown what) ⟨b, "before subscribe"⟩
      | .ok m =>
        match at? (L.subscribeList m) 0 with
        | .error what => E (.thrown what) ⟨b, "before subscribe"⟩
        | .ok data =>
          let b₁ := b.subscribe (L.topicFilter data) s
          match L.suback (b₁.session s).clientN with
          | .error what => E (.thrown what) ⟨b₁, "before subscribe"⟩
          | .ok packet =>
            let b₂ := b₁.countTask.enqueueMqtt ⟨b₁.taskCount, 1, packet, b₁.clientId s⟩
            if b₂.brokerCache = [] then Q () ⟨b₂, "before subscribe"⟩
            else Q () ⟨b₂.setRetainMessages s, "after subscribe"⟩ := by
  unfold Libraries.suback
  cases hint : L.interpretSubscribePacket recvData with
  | error what => simp [subscribe, hint]
  | ok m =>
    cases hfirst : at? (L.subscribeList m) 0 with
    | error what => simp [subscribe, hint, hfirst]
    | ok data =>
      let b₁ := b.subscribe (L.topicFilter data) s
      cases hgen : L.generateDefaultSuback (b₁.session s).clientN 1 with
      | error what => simp [subscribe, hint, hfirst, hgen, b₁, error_bind]
      | ok reply =>
        cases hconv : L.convertSubackIntoPacket reply [] with
        | error what => simp [subscribe, hint, hfirst, hgen, hconv, b₁, ok_bind]
        | ok packet => simp [subscribe, hint, hfirst, hgen, hconv, b₁, ok_bind, ends_retain]

/-- The name that a SUBSCRIBE registers its session under. -/
def subscribedTo (L : Libraries) (recvData : List UInt8) : Option String :=
  match L.interpretSubscribePacket recvData with
  | .error _ => none
  | .ok m => (L.subscribeList m).head?.map L.topicFilter

theorem subscribedTo_eq {m : L.Subscribe} (hint : L.interpretSubscribePacket recvData = .ok m) :
    subscribedTo L recvData = (L.subscribeList m).head?.map L.topicFilter := by
  rw [subscribedTo, hint]

/-- `topic_list` after a SUBSCRIBE. -/
def registered (L : Libraries) (s : SessionPtr) (recvData : List UInt8)
    (topics : List (BrokerTopic L)) : List (BrokerTopic L) :=
  match subscribedTo L recvData with
  | none => topics
  | some name => Registry.addMqttClientToTopic name s topics

theorem setRetainMessages_same (b : Broker L) (s : SessionPtr) :
    SameReaders b (b.setRetainMessages s) := by
  refine ⟨rfl, rfl, fun u => Broker.clientId_updateSession b s u rfl, ?_⟩
  have hchange : Change L s [] b (b.setRetainMessages s) := .plain (.setRetainMessages b)
  exact hchange.subRequested

/-- A SUBSCRIBE registers its session, and changes nothing else that a dispatch reads. Without
a filter it is not answered. -/
theorem messageProcess_subscribe (htype : packetType recvData = some .subscribe)
    (b : Broker L) :
    ∃ b', messageProcess L s recvData b = some b' ∧
      SameReaders { b with topicList := registered L s recvData b.topicList } b' ∧
      (subscribedTo L recvData = none → b'.mqttTaskQueue = b.mqttTaskQueue) := by
  refine (messageProcess_ends fun r => ∃ b', r = some b' ∧
    SameReaders { b with topicList := registered L s recvData b.topicList } b' ∧
      (subscribedTo L recvData = none → b'.mqttTaskQueue = b.mqttTaskQueue)).mpr ?_
  rw [Answers.body_subscribe htype, ends_subscribe]
  unfold registered subscribedTo
  cases L.interpretSubscribePacket recvData with
  | error what => exact ⟨_, rfl, ⟨rfl, rfl, fun _ => rfl, fun _ => rfl⟩, fun _ => rfl⟩
  | ok m =>
    dsimp only
    cases L.subscribeList m with
    | nil => exact ⟨_, rfl, ⟨rfl, rfl, fun _ => rfl, fun _ => rfl⟩, fun _ => rfl⟩
    | cons data rest =>
      simp only [at?, List.getElem?_cons_zero, List.head?_cons, Option.map_some, reduceCtorEq,
        false_implies, and_true]
      split
      · exact ⟨_, rfl, ⟨rfl, rfl, fun _ => rfl, fun _ => rfl⟩⟩
      · split
        · exact ⟨_, rfl, ⟨rfl, rfl, fun _ => rfl, fun _ => rfl⟩⟩
        · refine ⟨_, rfl, SameReaders.trans ?_ (setRetainMessages_same _ s)⟩
          exact ⟨rfl, rfl, fun _ => rfl, fun _ => rfl⟩

/-- All filters of the packet are registered. Without any there is no SUBACK and nothing to
register. -/
structure RegistersAll (s : SessionPtr) (m : L.Subscribe) (b b' : Broker L) : Prop where
  listed : ∀ topic ∈ L.subscribeList m,
    s ∈ (Registry.findTopic (L.topicFilter topic) b'.topicList).mqttClientSessions
  unanswered : L.subscribeList m = [] →
    b'.mqttTaskQueue = b.mqttTaskQueue ∧ b'.topicList = b.topicList

/-- The session is listed under that name after it was added under another or the same one. -/
theorem mem_addMqttClientToTopic_iff (hL : L.TopicKeepsName) (first name : String)
    (topics : List (BrokerTopic L)) :
    s ∈ (Registry.findTopic name
        (Registry.addMqttClientToTopic first s topics)).mqttClientSessions ↔
      name = first ∨ s ∈ (Registry.findTopic name topics).mqttClientSessions := by
  have hc : ∀ topic : BrokerTopic L,
      (topic.addMqttClient s).getSubTopicStr = topic.getSubTopicStr := fun _ => rfl
  by_cases hname : name = first
  · subst hname
    rw [Registry.addMqttClientToTopic, Registry.findTopic_addToTopic hL hc]
    simp [BrokerTopic.addMqttClient]
  · rw [Registry.addMqttClientToTopic, Registry.findTopic_addToTopic_of_ne hL hc hname]
    simp [hname]

/-- **All filters** are registered exactly when the others need nothing new. -/
theorem registersAll_iff (hL : L.TopicKeepsName) (b : Broker L)
    (htype : packetType recvData = some .subscribe) {m : L.Subscribe}
    (hint : L.interpretSubscribePacket recvData = .ok m) :
    ∃ b', messageProcess L s recvData b = some b' ∧
      (RegistersAll s m b b' ↔
        ∀ first ∈ (L.subscribeList m).head?, ∀ topic ∈ L.subscribeList m,
          L.topicFilter topic = L.topicFilter first ∨
            s ∈ (Registry.findTopic (L.topicFilter topic) b.topicList).mqttClientSessions) := by
  obtain ⟨b', hproc, hsame, hqueue⟩ := messageProcess_subscribe (s := s) htype b
  have htopics : b'.topicList = registered L s recvData b.topicList := hsame.topics
  refine ⟨b', hproc, ?_⟩
  rw [registered, subscribedTo_eq hint] at htopics
  rw [subscribedTo_eq hint] at hqueue
  cases hlist : L.subscribeList m with
  | nil =>
    rw [hlist] at htopics hqueue
    refine iff_of_true ⟨?_, fun _ => ⟨hqueue rfl, htopics⟩⟩ ?_
    · simp [hlist]
    · simp
  | cons first rest =>
    rw [hlist] at htopics
    rw [List.head?_cons, Option.map_some] at htopics
    have hlisted : ∀ topic : L.Topic,
        s ∈ (Registry.findTopic (L.topicFilter topic) b'.topicList).mqttClientSessions ↔
          L.topicFilter topic = L.topicFilter first ∨
            s ∈ (Registry.findTopic (L.topicFilter topic) b.topicList).mqttClientSessions := by
      intro topic
      rw [htopics]
      exact mem_addMqttClientToTopic_iff hL _ _ b.topicList
    simp only [← hlisted, List.head?_cons, Option.mem_def, Option.some.injEq, forall_eq']
    constructor
    · intro hall topic htopic
      exact hall.listed topic (hlist ▸ htopic)
    · intro hall
      refine ⟨?_, ?_⟩
      · rw [hlist]
        exact hall
      · rw [hlist]
        intro hnil
        cases hnil

/-- SUBSCRIBE to "GPS" and "A". -/
def subscribeBoth : List UInt8 := [0x82, 12, 0, 1, 0, 3, 71, 80, 83, 0, 0, 1, 65, 0]

/-- The only session, which has subscribed to nothing. -/
def accepted : Broker Wire.libraries := Run.accept 1 .init

/-- The session is listed under "GPS" and under "A". -/
def listedUnderBoth : Broker Wire.libraries :=
  (accepted.subscribe "GPS" 1).subscribe "A" 1

theorem subscribeBoth_registersAll :
    ∃ b', messageProcess Wire.libraries 1 subscribeBoth listedUnderBoth = some b' ∧
      RegistersAll 1 (Wire.decode subscribeBoth) listedUnderBoth b' := by
  have htype : packetType subscribeBoth = some .subscribe := rfl
  obtain ⟨b', hproc, hiff⟩ :=
    registersAll_iff (s := 1) Wire.topicKeepsName listedUnderBoth htype rfl
  exact ⟨b', hproc, hiff.mpr (by decide)⟩

/-- The session gets a SUBACK for both filters and is listed under "GPS" alone. -/
theorem subscribeBoth_not_registersAll :
    Run.Reachable accepted ∧
      Wire.libraries.subscribeList (Wire.decode subscribeBoth) = ["GPS", "A"] ∧
      ∃ b', messageProcess Wire.libraries 1 subscribeBoth accepted = some b' ∧
        b'.mqttTaskQueue.map MqttTask.taskOption = [1] ∧
        (Registry.findTopic "GPS" b'.topicList).mqttClientSessions = [1] ∧
        (Registry.findTopic "A" b'.topicList).mqttClientSessions = [] ∧
        ¬ RegistersAll 1 (Wire.decode subscribeBoth) accepted b' := by
  have hlist : Wire.libraries.subscribeList (Wire.decode subscribeBoth) = ["GPS", "A"] := rfl
  refine ⟨⟨[.accept 1], rfl⟩, hlist, _, rfl, rfl, by decide, by decide, ?_⟩
  intro h
  have hmem : ("A" : Wire.libraries.Topic) ∈
      Wire.libraries.subscribeList (Wire.decode subscribeBoth) :=
    hlist ▸ List.mem_cons_of_mem _ List.mem_cons_self
  exact absurd (h.listed "A" hmem) (by decide)

/-! ## Sequences of SUBSCRIBEs -/

/-- A session processes a SUBSCRIBE. -/
def step (b : Broker L) (e : SessionPtr × List UInt8) : Option (Broker L) :=
  if packetType e.2 = some .subscribe then messageProcess L e.1 e.2 b else none

/-- The session and the name that a packet registers it under. -/
def subscription (L : Libraries) (e : SessionPtr × List UInt8) : Option (SessionPtr × String) :=
  (subscribedTo L e.2).map fun name => (e.1, name)

/-- As a call of `add_mqtt_client_to_topic`. -/
def toCall (p : SessionPtr × String) : Registry.Call := .addMqttClient p.2 p.1

/-- No session is listed twice in an entry, and a SUBSCRIBE that was processed before changes
nothing about who a PUBLISH is sent to. -/
structure Idempotent (b : Broker L) (es : List (SessionPtr × List UInt8)) : Prop where
  unique : ∀ fs b', fs <+: es → Machine.run step b fs = some b' →
    ∀ topic ∈ b'.topicList, topic.mqttClientSessions.Nodup
  again : ∀ before e after b₁ b₂, es = before ++ e :: after → e ∈ before →
    Machine.run step b (before ++ e :: after) = some b₁ →
    Machine.run step b (before ++ after) = some b₂ →
    ∀ taskId packet r₁ r₂,
      mqttEndPointWriter ⟨taskId, 0, packet, broadcastId⟩ b₁ = some r₁ →
      mqttEndPointWriter ⟨taskId, 0, packet, broadcastId⟩ b₂ = some r₂ →
      r₁.sends.Perm r₂.sends

/-- Whatever is sent, the registry is that of the packets' subscriptions. -/
theorem run_subscribes {es : List (SessionPtr × List UInt8)}
    (hes : ∀ e ∈ es, packetType e.2 = some .subscribe) (b : Broker L) :
    ∃ b', Machine.run step b es = some b' ∧
      SameReaders { b with topicList :=
        ((es.filterMap (subscription L)).map toCall).foldl Registry.Call.perform b.topicList }
        b' := by
  induction es generalizing b with
  | nil => exact ⟨b, rfl, .refl b⟩
  | cons e es ih =>
    obtain ⟨he, hrest⟩ := List.forall_mem_cons.mp hes
    obtain ⟨m, hproc, hm, -⟩ := messageProcess_subscribe (s := e.1) he b
    obtain ⟨b', hrun, hb'⟩ := ih hrest m
    refine ⟨b', Machine.run_cons_eq_some.mpr ⟨m, by rw [step, if_pos he, hproc], hrun⟩, ?_⟩
    have htopics : m.topicList = registered L e.1 e.2 b.topicList := hm.topics
    rw [htopics] at hb'
    refine SameReaders.trans ?_ hb'
    have hfold : ((es.filterMap (subscription L)).map toCall).foldl Registry.Call.perform
          (registered L e.1 e.2 b.topicList) =
        (((e :: es).filterMap (subscription L)).map toCall).foldl Registry.Call.perform
          b.topicList := by
      rw [List.filterMap_cons, registered]
      cases hname : subscribedTo L e.2 <;> simp [subscription, hname, toCall, Registry.Call.perform]
    rw [hfold]
    exact hm.withTopics _

/-- The entries of the registry list nobody twice when no subscription is repeated. -/
theorem nodup_sessions_iff (hL : L.TopicKeepsName) (ps : List (SessionPtr × String)) :
    (∀ topic ∈ (Registry.registry (ps.map toCall) : List (BrokerTopic L)),
      topic.mqttClientSessions.Nodup) ↔ ps.Nodup := by
  have hfor : ∀ name, Registry.mqttClientsFor name (ps.map toCall) =
      (ps.filter fun p => p.2 = name).map Prod.fst := by
    intro name
    rw [Registry.mqttClientsFor, Registry.callsFor, List.filter_map, List.filterMap_map]
    exact congrFun List.filterMap_eq_map (ps.filter fun p => p.2 = name)
  rw [Registry.nodup_sessions_iff hL, Lists.nodup_iff_filter]
  simp only [hfor]

theorem filterMap_eq_of_nodup {before after : List (SessionPtr × List UInt8)}
    {e : SessionPtr × List UInt8} (he : e ∈ before)
    (h : ((before ++ e :: after).filterMap (subscription L)).Nodup) :
    (before ++ e :: after).filterMap (subscription L) =
      (before ++ after).filterMap (subscription L) := by
  cases hname : subscription L e with
  | none => simp [hname]
  | some p =>
    rw [List.filterMap_append, List.filterMap_cons_some hname, List.nodup_middle,
      List.nodup_cons] at h
    exact absurd (List.mem_append_left _ (List.mem_filterMap.mpr ⟨e, he, hname⟩)) h.1

/-- **Subscribing is idempotent** for exactly those sequences in which no session repeats a
first filter. -/
theorem idempotent_iff (hL : L.TopicKeepsName) {b : Broker L} (hb : b.topicList = [])
    {es : List (SessionPtr × List UInt8)} (hes : ∀ e ∈ es, packetType e.2 = some .subscribe) :
    (∃ b', Machine.run step b es = some b') ∧
      (Idempotent b es ↔ (es.filterMap (subscription L)).Nodup) := by
  have htopics : ∀ fs b', (∀ e ∈ fs, packetType e.2 = some .subscribe) →
      Machine.run step b fs = some b' → SameReaders { b with
        topicList := Registry.registry ((fs.filterMap (subscription L)).map toCall) } b' := by
    intro fs b' hfs hrun
    obtain ⟨b'', hrun', hsame⟩ := run_subscribes hfs b
    obtain rfl := Option.some.inj (hrun'.symm.trans hrun)
    rw [hb] at hsame
    exact hsame
  obtain ⟨b', hrun, -⟩ := run_subscribes hes b
  refine ⟨⟨b', hrun⟩, ?_, ?_⟩
  · intro h
    have hunique := h.unique es b' List.prefix_rfl hrun
    rw [(htopics es b' hes hrun).topics] at hunique
    exact (nodup_sessions_iff hL _).mp hunique
  · intro hnodup
    refine ⟨?_, ?_⟩
    · intro fs b₁ hfs hrun₁
      have hsub : ∀ e ∈ fs, packetType e.2 = some .subscribe := fun e he => hes e (hfs.subset he)
      rw [(htopics fs b₁ hsub hrun₁).topics]
      refine (nodup_sessions_iff hL _).mpr ?_
      exact hnodup.sublist (hfs.sublist.filterMap _)
    · rintro before e after b₁ b₂ rfl he hrun₁ hrun₂ taskId packet r₁ r₂ hr₁ hr₂
      have hsub : ∀ e' ∈ before ++ after, packetType e'.2 = some .subscribe := by
        intro e' he'
        refine hes e' (List.mem_append.mpr ?_)
        exact (List.mem_append.mp he').imp_right (List.mem_cons_of_mem e)
      have h₁ := htopics _ b₁ hes hrun₁
      have h₂ := htopics _ b₂ hsub hrun₂
      rw [filterMap_eq_of_nodup he hnodup] at h₁
      obtain ⟨r, hr⟩ := mqttEndPointWriter_isSome ⟨taskId, 0, packet, broadcastId⟩ { b with
        topicList := Registry.registry (((before ++ after).filterMap (subscription L)).map toCall) }
      rw [mqttEndPointWriter_same h₁ hr hr₁, mqttEndPointWriter_same h₂ hr hr₂]

/-- Two sessions subscribe to "GPS", one of them also to "A". -/
theorem twoSessions_idempotent :
    Idempotent accepted
      [(1, Wire.subscribeGps), (2, Wire.subscribeGps), (1, [0x82, 6, 0, 1, 0, 1, 65, 0])] :=
  (idempotent_iff Wire.topicKeepsName rfl (by decide)).2.mpr (by decide)

/-- After a second SUBSCRIBE to "GPS" the session is listed twice, and a PUBLISH is sent to it
twice. -/
theorem repeated_not_idempotent :
    ∃ b₁ b₂ r₁ r₂, Machine.run step accepted [(1, Wire.subscribeGps)] = some b₁ ∧
      Machine.run step accepted [(1, Wire.subscribeGps), (1, Wire.subscribeGps)] = some b₂ ∧
      (Registry.findTopic "GPS" b₂.topicList).mqttClientSessions = [1, 1] ∧
      mqttEndPointWriter ⟨0, 0, AtMostOnce.publishGps, broadcastId⟩ b₁ = some r₁ ∧
      mqttEndPointWriter ⟨0, 0, AtMostOnce.publishGps, broadcastId⟩ b₂ = some r₂ ∧
      r₁.sends.map SendCall.session = [1] ∧ r₂.sends.map SendCall.session = [1, 1] ∧
      ¬ Idempotent accepted [(1, Wire.subscribeGps), (1, Wire.subscribeGps)] := by
  refine ⟨_, _, _, _, rfl, rfl, by decide, rfl, rfl, by decide, by decide, ?_⟩
  intro h
  have hunique := h.unique _ _ List.prefix_rfl rfl
  exact absurd (hunique _ List.mem_cons_self) (by decide)

end BddsBroker.Subscriptions

import BddsBroker.Dds.Message
import BddsBroker.Mqtt.Broker

/-! `Broker_Publisher::work` behind its wait for a reader: the loop that takes the tasks
for DDS from their queue, decodes the payloads and writes the samples. The loop has no
`try` block. An exception leaves `work` and the function of its thread, and this ends
the process. -/

namespace BddsBroker.Dds

open PropertyTree Program

variable {N : Numbers} (J : Json)

/-- The body of the loop, over the list of the samples written so far. -/
def publish (task : BrokerTask) : EStateM String (List (Message N)) Unit := do
  let message ← ofExcept id (decode J task.data)
  modify fun written => written ++ [message]

/-- The loop on the tasks that it takes, one after the other. -/
def work : List BrokerTask → EStateM String (List (Message N)) Unit
  | [] => return ()
  | task :: tasks => do
      publish J task
      work tasks

/-- The sample of a task, when its payload is well formed. -/
def decoded (task : BrokerTask) : Option (Message N) := (decode J task.data).toOption

/-- Nothing but the ill-formed payloads is missing, and the loop is still running. -/
def SkipsIllFormed (N : Numbers) (tasks : List BrokerTask) : Prop :=
  work J tasks [] = .ok () (tasks.filterMap (decoded (N := N) J))

/-! ## One task -/

variable {J}

theorem work_cons_ok {task : BrokerTask} {message : Message N}
    (h : decode J task.data = .ok message) (tasks : List BrokerTask) (written : List (Message N)) :
    work J (task :: tasks) written = work J tasks (written ++ [message]) := by
  show (EStateM.bind (publish J task) fun _ => work J tasks) written = _
  unfold publish
  rw [h]
  rfl

theorem work_cons_error {task : BrokerTask} {what : String}
    (h : (decode J task.data : Except String (Message N)) = .error what)
    (tasks : List BrokerTask) (written : List (Message N)) :
    work J (task :: tasks) written = .error what written := by
  show (EStateM.bind (publish J task) fun _ => work J tasks) written = _
  unfold publish
  rw [h]
  rfl

/-! ## All tasks -/

/-- While the payloads are well formed their samples are written. -/
theorem work_append {before : List BrokerTask} (h : ∀ task ∈ before, WellFormed N J task.data)
    (tasks : List BrokerTask) (written : List (Message N)) :
    work J (before ++ tasks) written =
      work J tasks (written ++ before.filterMap (decoded J)) := by
  induction before generalizing written with
  | nil => simp
  | cons task before ih =>
    obtain ⟨message, hmessage⟩ := (decode_ok_iff J task.data).mpr (h task List.mem_cons_self)
    have hdecoded : decoded J task = some message := by rw [decoded, hmessage]; rfl
    rw [List.cons_append, work_cons_ok hmessage,
      ih (fun t ht => h t (List.mem_cons_of_mem task ht)), List.filterMap_cons_some hdecoded,
      List.append_assoc, List.singleton_append]

/-- **The loop ends at the first ill-formed payload**, with what was written before it. -/
theorem work_stops {before : List BrokerTask} (h : ∀ task ∈ before, WellFormed N J task.data)
    {task : BrokerTask} (hbad : ¬ WellFormed N J task.data) (after : List BrokerTask) :
    ∃ what, work J (before ++ task :: after) [] =
      .error what (before.filterMap (decoded (N := N) J)) := by
  cases hdecode : (decode J task.data : Except String (Message N)) with
  | ok message => exact absurd ((decode_ok_iff J task.data).mp ⟨message, hdecode⟩) hbad
  | error what => exact ⟨what, by rw [work_append h, work_cons_error hdecode, List.nil_append]⟩

/-- A loop that is still running has met no ill-formed payload. -/
theorem wellFormed_of_work {tasks : List BrokerTask} {written written' : List (Message N)}
    (h : work J tasks written = .ok () written') : ∀ task ∈ tasks, WellFormed N J task.data := by
  induction tasks generalizing written with
  | nil => simp
  | cons task tasks ih =>
    cases hdecode : (decode J task.data : Except String (Message N)) with
    | error what =>
      rw [work_cons_error hdecode] at h
      cases h
    | ok message =>
      rw [work_cons_ok hdecode] at h
      refine List.forall_mem_cons.mpr ⟨?_, ih h⟩
      exact (decode_ok_iff J task.data).mp ⟨message, hdecode⟩

/-- The loop skips nothing: it survives exactly when there is nothing to skip. -/
theorem skipsIllFormed_iff (tasks : List BrokerTask) :
    SkipsIllFormed J N tasks ↔ ∀ task ∈ tasks, WellFormed N J task.data := by
  constructor
  · exact fun h => wellFormed_of_work h
  · intro h
    have hwork := work_append h [] []
    rw [List.append_nil, List.nil_append] at hwork
    exact hwork

/-! ## A payload that is not JSON -/

def chat : BrokerTask := ⟨0, "A", "HI"⟩

def position : BrokerTask := ⟨1, "GPS", vehicleJson⟩

/-- The text ends the loop, and the position behind it is not written. -/
theorem chat_stops :
    [chat, position].filterMap (decoded (N := wholeNumbers) JsonText.json) = [vehicle] ∧
      work (N := wholeNumbers) JsonText.json [chat, position] [] = .error "expected value" [] ∧
      ¬ SkipsIllFormed JsonText.json wholeNumbers [chat, position] := by
  have hchat : (decode JsonText.json chat.data : Except String (Message wholeNumbers)) =
      .error "expected value" := rfl
  have hposition : decoded JsonText.json position = some vehicle := by
    show (decode JsonText.json vehicleJson).toOption = some vehicle
    rw [decode_vehicle]
    rfl
  have hwork := work_cons_error hchat [position] []
  refine ⟨?_, hwork, fun hskips => ?_⟩
  · rw [List.filterMap_cons_none (by rw [decoded, hchat]; rfl), List.filterMap_cons_some hposition,
      List.filterMap_nil]
  · rw [SkipsIllFormed, hwork] at hskips
    cases hskips

end BddsBroker.Dds

import PolicyProbe.Proofs.Desired.Entry

/-!
Merging step after step into an entry that has nothing twice. The steps come to one merge of all
that they ask (`mergeEach_eq`), and a list of clients of distinct keys is known by its keys and by
what is found for each of them (`map_find?_keys`). So the entry after all steps is known from the
entry before and from what was asked, in the order in which it was asked (`merged_step_by_step`):
what is new comes behind what is old, where it was asked for first, and a client expects what was
asked of its key last, in the place that its key has had from the start.
-/
namespace PolicyProbe.StateEntry

open ClientEntry

/-- The entry after some merges, one after another. -/
def mergeEach (e : StateEntry) (steps : List (List ServerEntry × List ClientEntry)) : StateEntry :=
  steps.foldl (fun e step => e.merge step.1 step.2) e

/-- All steps are one. -/
theorem mergeEach_eq (e : StateEntry) (steps : List (List ServerEntry × List ClientEntry)) :
    e.mergeEach steps = e.merge (steps.flatMap Prod.fst) (steps.flatMap Prod.snd) := by
  induction steps generalizing e with
  | nil => rfl
  | cons step steps ih =>
    calc e.mergeEach (step :: steps)
        = (e.merge step.1 step.2).mergeEach steps := rfl
      _ = (e.merge step.1 step.2).merge (steps.flatMap Prod.fst) (steps.flatMap Prod.snd) := ih _
      _ = _ := by rw [merge_merge, List.flatMap_cons, List.flatMap_cons]

theorem mergeEach_append (e : StateEntry)
    (steps later : List (List ServerEntry × List ClientEntry)) :
    e.mergeEach (steps ++ later) = (e.mergeEach steps).mergeEach later := by
  simp [mergeEach]

/-- A step that is made twice in a row could have been made once. -/
theorem mergeEach_twice (e : StateEntry)
    (before rest : List (List ServerEntry × List ClientEntry))
    (step : List ServerEntry × List ClientEntry) :
    e.mergeEach (before ++ step :: step :: rest) = e.mergeEach (before ++ step :: rest) := by
  rw [mergeEach_append, mergeEach_append]
  show mergeEach (((e.mergeEach before).merge step.1 step.2).merge step.1 step.2) rest = _
  rw [merge_again]
  rfl

/-- Among distinct keys, every client is the one that is found for its key. -/
theorem find?_key {cs : List ClientEntry} (h : (cs.map key).Nodup) {c : ClientEntry}
    (hc : c ∈ cs) : cs.find? (·.key = c.key) = some c := by
  induction cs with
  | nil => simp at hc
  | cons d rest ih =>
    rw [List.map_cons, List.nodup_cons] at h
    obtain ⟨hnew, hrest⟩ := h
    rcases List.mem_cons.mp hc with rfl | hc
    · simp
    · have hne : d.key ≠ c.key := by
        intro heq
        apply hnew
        rw [heq]
        exact List.mem_map_of_mem hc
      rw [List.find?_cons_of_neg (by simpa using hne)]
      exact ih hrest hc

theorem map_find?_keys {cs : List ClientEntry} (h : (cs.map key).Nodup) :
    (cs.map key).map (fun k => cs.find? (·.key = k)) = cs.map some := by
  rw [List.map_map]
  apply List.map_congr_left
  intro c hc
  exact find?_key h hc

/-- Merging step by step into an entry that has nothing twice. The endpoint stays. The servers are
the old ones and then the new ones, each once, in the order in which they are asked for first. The
keys of the clients are the old ones and then the new ones in the same order; for each of them the
entry has the last client of the key that was asked for, or the old one if none was. So nothing is
there twice, all steps are one merge of what they ask one after another, and repeating a step at
once changes nothing. -/
theorem merged_step_by_step {e : StateEntry} (h : e.Distinct)
    (steps : List (List ServerEntry × List ClientEntry)) :
    let servers := steps.flatMap Prod.fst
    let clients := steps.flatMap Prod.snd
    let keys := e.clients.map key ++ newcomers (e.clients.map key) (clients.map key)
    let merged := e.mergeEach steps
    merged.endpoint = e.endpoint ∧ merged.servers = e.servers ++ newcomers e.servers servers ∧
      merged.clients.map key = keys ∧
      merged.clients.map some = keys.map (fun k =>
        (clients.findRev? (·.key = k)).or (e.clients.find? (·.key = k))) ∧
      merged.Distinct ∧ merged = e.merge servers clients ∧
      ∀ before step rest, steps = before ++ step :: rest →
        e.mergeEach (before ++ step :: step :: rest) = merged := by
  intro servers clients keys merged
  have hmerged : merged = e.merge servers clients := mergeEach_eq e steps
  have hclients : Merged e.clients clients merged.clients := by
    rw [hmerged]
    exact merge_clients e servers clients
  have hdistinct : merged.Distinct := by
    rw [hmerged]
    exact h.merge servers clients
  refine ⟨?_, ?_, hclients.keys, ?_, hdistinct, hmerged, ?_⟩
  · rw [hmerged]
    rfl
  · rw [hmerged]
    exact merge_servers e servers clients
  · rw [← map_find?_keys hdistinct.clients, hclients.keys]
    apply List.map_congr_left
    intro k _
    exact hclients.expected k
  · rintro before step rest rfl
    exact mergeEach_twice e before rest step

/-- A client entry for a port of the loopback address. -/
def onLoopback (port : Nat) (connected : Bool) (action : Action) : ClientEntry :=
  ⟨.tcp, port, .loopback, connected, action⟩

/-- An entry with a server and two clients. -/
def twoClients : StateEntry where
  endpoint := .loopback
  servers := [⟨.tcp, 80⟩]
  clients := [onLoopback 80 true .allow, onLoopback 81 true .allow]

/-- Two steps: the first asks for one key twice and for one that is new, the second for the key that
is oldest. -/
def twoSteps : List (List ServerEntry × List ClientEntry) :=
  [([⟨.udp, 53⟩, ⟨.tcp, 80⟩, ⟨.udp, 53⟩],
      [onLoopback 81 true .reject, onLoopback 90 true .allow, onLoopback 81 false .allow]),
    ([], [onLoopback 80 true .reject])]

theorem merged_step_by_step_twoSteps :
    twoClients.Distinct ∧ (twoClients.mergeEach twoSteps).servers = [⟨.tcp, 80⟩, ⟨.udp, 53⟩] ∧
      (twoClients.mergeEach twoSteps).clients.map some =
        [onLoopback 80 true .reject, onLoopback 81 false .allow, onLoopback 90 true .allow].map
          some := by
  have hdistinct : twoClients.Distinct := ⟨by decide, by decide⟩
  obtain ⟨-, hservers, -, hclients, -⟩ := merged_step_by_step hdistinct twoSteps
  exact ⟨hdistinct, hservers.trans (by decide), hclients.trans (by decide)⟩

end PolicyProbe.StateEntry

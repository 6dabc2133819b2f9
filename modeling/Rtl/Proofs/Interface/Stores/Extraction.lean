import Rtl.Proofs.Interface.Stores.Matching

namespace Rtl

open Forest

namespace Synthesizer

variable {synth : Synthesizer} {template : Template} {first candidate : String} {claims : Claims}

theorem eq_of_matchByName (synth : Synthesizer) (id : NodeId) (stem : String) (claims : Claims) :
    (synth.matchByName id stem claims).2.1 =
      { synth with nodes := (synth.matchByName id stem claims).2.1.nodes } := by
  simp only [matchByName]
  split <;> rfl

-- An attempt that fails is cut off behind the nodes there were, and so nothing is left of it.
theorem tryPort?_store (synth : Synthesizer) (template : Template) (first : String)
    (claims : Claims) (port : PortId) :
    synth.store.tryPort? template.blueprint first claims port =
      some ((synth.tryPort template first claims port).1,
        (synth.tryPort template first claims port).2.1.store,
        (synth.tryPort template first claims port).2.2) := by
  cases hcandidate : claims.candidate? port first with
  | none => simp only [Store.tryPort?, tryPort, hcandidate]
  | some candidate =>
      obtain ⟨added, hadded, -⟩ := exists_copies_tryPort synth template first claims port
      have hkept := hadded.nodes
      generalize hattempt : (synth.instantiate template true none []).2.matchByName ⟨synth.size⟩
        candidate claims = attempt
      obtain ⟨hclaims, hcases⟩ := rows_tryPort hcandidate hattempt
      have hmatch := matchByName?_store (synth.node?_instantiate template true none []) candidate
        claims
      have hmade := eq_of_matchByName (synth.instantiate template true none []).2 ⟨synth.size⟩
        candidate claims
      rw [hattempt] at hmatch hmade
      have hstore : attempt.2.1.store = ⟨.ofRows attempt.2.1.rows, synth.registry.blueprints,
          synth.separator⟩ := by
        rw [hmade]
        rfl
      generalize synth.tryPort template first claims port = tried at hkept hclaims hcases ⊢
      obtain ⟨found, next, now⟩ := tried
      simp only at hkept hclaims hcases
      have hnext : next.store =
          ⟨.ofRows next.rows, synth.registry.blueprints, synth.separator⟩ := by
        rw [hkept]
        rfl
      simp only [Store.tryPort?, hcandidate, instantiate_store]
      have hid : (synth.instantiate template true none []).1 = ⟨synth.size⟩ := rfl
      rw [hid, hmatch]
      obtain ⟨cause, hcause, rfl, hrows⟩ | ⟨hok, rfl, hrows⟩ := hcases
      · simp only [hcause, Option.bind_eq_bind, Option.bind_some, hstore, hnext, hrows, hclaims,
          Nodes.truncate_ofRows, size_store, Option.pure_def]
      · simp only [hok, Option.bind_eq_bind, Option.bind_some, hstore, hnext, hrows, hclaims,
          Nodes.modify_ofRows, Option.pure_def]
        rfl

theorem tryPorts?_store (synth : Synthesizer) (template : Template) (first : String)
    (claims : Claims) (ports : List PortId) :
    synth.store.tryPorts? template.blueprint first claims ports =
      some ((synth.tryPorts template first claims ports).1,
        (synth.tryPorts template first claims ports).2.1.store,
        (synth.tryPorts template first claims ports).2.2) := by
  induction ports generalizing synth claims with
  | nil => rfl
  | cons port rest ih =>
      simp only [Store.tryPorts?, tryPort?_store, Option.bind_eq_bind, Option.bind_some, ih,
        tryPorts, Option.pure_def]

theorem extractAll?_store (synth : Synthesizer) (h : synth.registry.Distinct) (cls : InterfaceClass)
    (claims : Claims) :
    synth.store.extractAll? cls claims =
      some ((synth.extractAll cls claims).1, (synth.extractAll cls claims).2.1.store,
        (synth.extractAll cls claims).2.2) := by
  simp only [Store.extractAll?, template?_store synth h, Blueprint.firstMember?_blueprint,
    Option.bind_eq_bind, Option.bind_some, extractAll]
  cases (synth.template cls).1.firstMember with
  | error cause => rfl
  | ok first => simp only [tryPorts?_store, Option.bind_some, Option.pure_def]

end Synthesizer

end Rtl

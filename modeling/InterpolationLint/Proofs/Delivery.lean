import InterpolationLint.Proofs.Diagnostic.Distinct

/-!
# Delivery to a receiver

Diagnostics are handed over in their order, up to the first one that the receiver refuses. This is
said of the calls that the receiver sees, and so holds whatever it keeps in its state and however it
comes to its answers. If the analysis fails there are no calls.
-/

namespace InterpolationLint

namespace Receiver

variable {σ : Type}

theorem deliver_of_refused {receiver : Receiver σ} {state next : σ} {d : Diagnostic}
    (h : receiver.accept state d = (next, false)) (rest : List Diagnostic) :
    receiver.deliver state (d :: rest) = (next, 0) := by
  simp [deliver, h]

theorem deliver_of_taken {receiver : Receiver σ} {state next : σ} {d : Diagnostic}
    (h : receiver.accept state d = (next, true)) (rest : List Diagnostic) :
    receiver.deliver state (d :: rest) =
      ((receiver.deliver next rest).1, (receiver.deliver next rest).2 + 1) := by
  simp [deliver, h]

/-! ## Calls -/

/-- From `state`, called on these diagnostics in turn, the receiver gives the answers noted beside
them and ends in `final`. -/
inductive Answers (receiver : Receiver σ) : σ → List (Diagnostic × Bool) → σ → Prop
  | nil {state} : Answers receiver state [] state
  | cons {state next final d taken calls} : receiver.accept state d = (next, taken) →
      Answers receiver next calls final → Answers receiver state ((d, taken) :: calls) final

def noting (receiver : Receiver σ) : Receiver (σ × List (Diagnostic × Bool)) where
  accept state d :=
    let (next, taken) := receiver.accept state.1 d
    ((next, state.2 ++ [(d, taken)]), taken)

/-- What the calls of a delivery are: the diagnostics in order, each answered by the receiver as it
then is, and none after one that was refused. If all are accepted, none is left. The accepted ones
are counted. -/
structure Delivery (receiver : Receiver σ) (state : σ) (diagnostics : List Diagnostic)
    (calls : List (Diagnostic × Bool)) (final : σ) (delivered : Nat) : Prop where
  answers : receiver.Answers state calls final
  inOrder : calls.map Prod.fst <+: diagnostics
  stops : ∀ before call after, calls = before ++ call :: after → call.2 = false → after = []
  complete : (∀ call ∈ calls, call.2 = true) → calls.map Prod.fst = diagnostics
  counted : calls.countP (·.2) = delivered
  accepted : (calls.filter (·.2)).map Prod.fst = diagnostics.take delivered

section
variable {receiver : Receiver σ} {state next final : σ} {d : Diagnostic} {rest : List Diagnostic}
  {calls : List (Diagnostic × Bool)} {count : Nat}

theorem Delivery.nothing : receiver.Delivery state [] [] state 0 where
  answers := .nil
  inOrder := by simp
  stops := by simp
  complete := by simp
  counted := rfl
  accepted := rfl

theorem Delivery.refused (h : receiver.accept state d = (next, false)) :
    receiver.Delivery state (d :: rest) [(d, false)] next 0 where
  answers := .cons h .nil
  inOrder := by simp
  stops := by
    intro before call after hcalls _
    cases before with
    | nil => exact (List.cons.inj hcalls).2.symm
    | cons first before => simp at hcalls
  complete := by simp
  counted := rfl
  accepted := by simp

theorem Delivery.taken (h : receiver.accept state d = (next, true))
    (hrest : receiver.Delivery next rest calls final count) :
    receiver.Delivery state (d :: rest) ((d, true) :: calls) final (count + 1) where
  answers := .cons h hrest.answers
  inOrder := by simpa using hrest.inOrder
  stops := by
    intro before call after hcalls hrefused
    cases before with
    | nil =>
      obtain ⟨rfl, -⟩ := List.cons.inj hcalls
      cases hrefused
    | cons first before =>
      apply hrest.stops before call after _ hrefused
      simpa using (List.cons.inj hcalls).2
  complete := by
    intro hall
    simpa using hrest.complete (by simpa using hall)
  counted := by simp [hrest.counted]
  accepted := by simp [hrest.accepted]

end

theorem noting_accept {receiver : Receiver σ} {state next : σ} {d : Diagnostic} {taken : Bool}
    (h : receiver.accept state d = (next, taken)) (notes : List (Diagnostic × Bool)) :
    receiver.noting.accept (state, notes) d = ((next, notes ++ [(d, taken)]), taken) := by
  simp [noting, h]

theorem exists_delivery (receiver : Receiver σ) : ∀ (diagnostics : List Diagnostic) (state : σ),
    ∃ calls final delivered, receiver.deliver state diagnostics = (final, delivered) ∧
      (∀ notes, receiver.noting.deliver (state, notes) diagnostics =
        ((final, notes ++ calls), delivered)) ∧
      receiver.Delivery state diagnostics calls final delivered
  | [], state => ⟨[], state, 0, rfl, by simp [deliver], .nothing⟩
  | d :: rest, state => by
    cases hanswer : receiver.accept state d with
    | mk next taken =>
      cases taken with
      | false =>
        refine ⟨_, next, 0, deliver_of_refused hanswer rest, ?_, .refused hanswer⟩
        intro notes
        exact deliver_of_refused (noting_accept hanswer notes) rest
      | true =>
        obtain ⟨calls, final, count, hdeliver, hnoting, hdelivery⟩ :=
          exists_delivery receiver rest next
        refine ⟨_, final, count + 1, ?_, ?_, hdelivery.taken hanswer⟩
        · rw [deliver_of_taken hanswer, hdeliver]
        · intro notes
          rw [deliver_of_taken (noting_accept hanswer notes), hnoting]
          simp

/-! ## Receivers that take so many -/

/-- From `state` the receiver takes `n` diagnostics, whichever they are, and refuses the next. -/
def TakesOnly (receiver : Receiver σ) : Nat → σ → Prop
  | 0, state => ∀ d, (receiver.accept state d).2 = false
  | n + 1, state => ∀ d, (receiver.accept state d).2 = true ∧
      receiver.TakesOnly n (receiver.accept state d).1

theorem TakesOnly.count_deliver {receiver : Receiver σ} : ∀ {n : Nat} {state : σ},
    receiver.TakesOnly n state → ∀ diagnostics : List Diagnostic,
    (receiver.deliver state diagnostics).2 = min n diagnostics.length
  | _, _, _, [] => by simp [deliver]
  | 0, state, h, d :: rest => by
    rw [deliver_of_refused (Prod.ext rfl (h d)) rest]
    simp
  | n + 1, state, h, d :: rest => by
    obtain ⟨htaken, hnext⟩ := h d
    rw [deliver_of_taken (Prod.ext rfl htaken) rest, hnext.count_deliver rest]
    simp

theorem limited_takesOnly {limit : Nat} : ∀ (n : Nat) (taken : List Diagnostic),
    taken.length + n = limit → (limited limit).TakesOnly n taken
  | 0, taken, h => by
    intro d
    simp [limited, show ¬taken.length < limit by omega]
  | n + 1, taken, h => by
    intro d
    have hlt : taken.length < limit := by omega
    constructor
    · simp [limited, hlt]
    · simp only [limited, hlt, if_true]
      apply limited_takesOnly n
      simp
      omega

end Receiver

/-! ## Analyses -/

namespace SourceTree

variable {σ : Type}

theorem offer_of_error {tree : SourceTree} {rules : RuleSet} {e : AnalysisError}
    (h : tree.analyze rules = .error e) (receiver : Receiver σ) (state : σ) :
    tree.offer rules receiver state = (state, .error e) := by
  simp [offer, h]

theorem offer_of_ok {tree : SourceTree} {rules : RuleSet} {diagnostics : List Diagnostic}
    (h : tree.analyze rules = .ok diagnostics) {receiver : Receiver σ} {state final : σ}
    {delivered : Nat} (hdeliver : receiver.deliver state diagnostics = (final, delivered)) :
    tree.offer rules receiver state = (final, .ok delivered) := by
  simp [offer, h, hdeliver]

/-- Whatever the receiver does, the diagnostics of a tree are offered to it in order, up to the
first one that it refuses and no further, and those that it took are counted. A receiver that takes
`n` diagnostics gets that many, or all. A failed analysis gives its error, and the receiver is left
as it was. -/
theorem offer_delivers (tree : SourceTree) (rules : RuleSet) (receiver : Receiver σ) (state : σ) :
    (∀ e, tree.analyze rules = .error e →
      tree.offer rules receiver state = (state, .error e) ∧
      tree.offer rules receiver.noting (state, []) = ((state, []), .error e) ∧
      tree.analyzeInto rules receiver state = .error e) ∧
    ∀ diagnostics, tree.analyze rules = .ok diagnostics →
      ∃ calls final delivered,
        tree.offer rules receiver state = (final, .ok delivered) ∧
        tree.offer rules receiver.noting (state, []) = ((final, calls), .ok delivered) ∧
        tree.analyzeInto rules receiver state = .ok (final, delivered) ∧
        receiver.Delivery state diagnostics calls final delivered ∧
        ∀ n, receiver.TakesOnly n state → delivered = min n diagnostics.length := by
  constructor
  · intro e herror
    refine ⟨offer_of_error herror receiver state, offer_of_error herror _ _, ?_⟩
    simp [analyzeInto, offer_of_error herror]
  · intro diagnostics hok
    obtain ⟨calls, final, delivered, hdeliver, hnoting, hdelivery⟩ :=
      receiver.exists_delivery diagnostics state
    have hoffer := offer_of_ok hok hdeliver
    refine ⟨calls, final, delivered, hoffer, offer_of_ok hok (hnoting []), ?_, hdelivery, ?_⟩
    · simp [analyzeInto, hoffer]
    · intro n htakes
      rw [← htakes.count_deliver diagnostics, hdeliver]

/-- Two diagnostics for a receiver that takes one of them, and a malformed string for one that would
take everything. -/
theorem offer_delivers_one_of_two : ∃ tree diagnostics, ∃ broken : SourceTree,
    ofSource "$\"\"; $\"$\x7bx\x7d\";" = .ok tree ∧ tree.analyze .all = .ok diagnostics ∧
    diagnostics.length = 2 ∧
    (∃ calls final, tree.offer .all (.limited 1) [] = (final, .ok 1) ∧
      tree.offer .all (Receiver.limited 1).noting ([], []) = ((final, calls), .ok 1) ∧
      (calls.filter (·.2)).map Prod.fst = diagnostics.take 1) ∧
    broken.analyze .all = .error (.malformed 0 (.uncovered ⟨2, 4⟩)) ∧
    ∀ taken, broken.offer .all .collect taken =
      (taken, .error (.malformed 0 (.uncovered ⟨2, 4⟩))) := by
  have hscan : (ofSource "$\"\"; $\"$\x7bx\x7d\";").toOption.map
      (fun tree => (tree.findings .all).length) = some 2 := by
    decide +kernel
  obtain ⟨tree, htree, hfindings⟩ := exists_ok_of_map hscan
  have hanalyze := analyze_eq htree .all
  have hlength : (Diagnostic.arranged ((tree.findings .all).map
      (Diagnostic.located tree.lines))).length = 2 := by
    rw [(Diagnostic.arranged_of_distinct (located_distinct htree .all)).1.length_eq]
    simpa using hfindings
  obtain ⟨calls, final, delivered, hoffer, hnoting, -, hdelivery, hcount⟩ :=
    (offer_delivers tree .all (.limited 1) []).2 _ hanalyze
  obtain rfl : delivered = 1 := by
    rw [hcount 1 (Receiver.limited_takesOnly 1 [] rfl), hlength]
    rfl
  obtain ⟨broken, hbroken⟩ : ∃ broken : SourceTree,
      broken.analyze .all = .error (.malformed 0 (.uncovered ⟨2, 4⟩)) :=
    ⟨⟨[.interpolated ⟨0, .regular, ⟨0, 5⟩, ⟨2, 4⟩, []⟩], LineIndex.ofText "$\"ab\""⟩, rfl⟩
  refine ⟨tree, _, broken, htree, hanalyze, hlength, ⟨calls, final, hoffer, hnoting, ?_⟩, hbroken,
    ?_⟩
  · exact hdelivery.accepted
  · intro taken
    exact ((offer_delivers broken .all .collect taken).1 _ hbroken).1

end SourceTree

end InterpolationLint

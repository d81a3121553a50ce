import Ashbi.Gmail.Books

/-! What the threads were told of the receipts, and what of it every statement keeps true. -/

namespace Ashbi.Gmail

open Interleaving

/-! ### What the threads were told -/

/-- A call of Gmail is for a receipt that its thread has claimed, and is its first. -/
theorem need_calls {o : Occurrence machine} {facts : List Fact} {transport : Transport}
    {receipt : Receipt} (hcalls : calls o = some (transport, receipt)) (h : need o.stmt facts) :
    (progress facts).sent = false ∧ ∃ snapshot,
      (⟨transport.mailbox, snapshot⟩, receipt) ∈ (progress facts).claims ∧
        .prepared snapshot transport ∈ facts := by
  obtain ⟨i, st, ch, db⟩ := o
  cases st with
  | send transport' receipt' =>
    obtain ⟨rfl, rfl⟩ := Prod.mk.inj (Option.some.inj hcalls)
    exact h
  | _ => cases hcalls

theorem learned_created {o : Occurrence machine} {transport : Transport} {receipt : Receipt}
    (h : .created transport receipt ∈ learned o) :
    receipt.id = o.pre.issued ∧ o.post.issued = o.pre.issued + 1 ∧
      transport = ⟨receipt.mailbox, receipt.snapshot⟩ ∧
        (∀ facts, need o.stmt facts →
          .looked receipt.scope ∈ facts ∧ Backed receipt.snapshot.payload facts) ∧
          ∀ id, receipt.snapshot.payload.responseId = some id → ∃ response,
            o.pre.findResponse o.thread id receipt.snapshot.payload.hubThreadId = some response ∧
              response.status = .approved := by
  have hcases (fact : Fact) (hlearned : learned o = [fact] ∨ learned o = [.failed]) :
      fact = .created transport receipt := by
    rcases hlearned with hlearned | hlearned
    · rw [hlearned, List.mem_singleton] at h
      exact h.symm
    · rw [hlearned, List.mem_singleton] at h
      cases h
  cases effect o with
  | keep _ _ hcreated => exact absurd h (hcreated _ _)
  | create hneed happroved _ _ hid _ hpost hlearned =>
    obtain ⟨rfl, rfl⟩ := Fact.created.inj (hcases _ hlearned)
    exact ⟨hid, congrArg Books.issued hpost, rfl, fun facts h => (hneed facts h).2, happroved⟩
  | @update id _ outcome _ _ _ _ _ _ _ hlearned =>
    have hfact := hcases _ hlearned
    cases outcome <;> cases hfact
  | record _ _ hlearned => cases hcases _ hlearned
  | commit _ _ hlearned =>
    rcases hlearned with hlearned | hlearned
    · rw [hlearned, List.mem_singleton] at h
      cases h
    · rw [hlearned, List.mem_singleton] at h
      cases h
  | rollback _ hlearned =>
    rw [hlearned, List.mem_singleton] at h
    cases h

theorem learned_sent {o : Occurrence machine} {id : ℕ} {refused : Bool}
    (h : .sent id refused ∈ learned o) : learned o = [.sent id refused] ∧
      ∃ transport receipt, calls o = some (transport, receipt) ∧ receipt.id = id := by
  have hcases (fact : Fact) (hlearned : learned o = [fact] ∨ learned o = [.failed]) :
      fact = .sent id refused := by
    rcases hlearned with hlearned | hlearned
    · rw [hlearned, List.mem_singleton] at h
      exact h.symm
    · rw [hlearned, List.mem_singleton] at h
      cases h
  cases effect o with
  | keep _ _ _ hsent => exact hsent id refused h
  | create _ _ _ _ _ _ _ hlearned => cases hcases _ hlearned
  | @update id _ outcome _ _ _ _ _ _ _ hlearned =>
    have hfact := hcases _ hlearned
    cases outcome <;> cases hfact
  | record _ _ hlearned => cases hcases _ hlearned
  | commit _ _ hlearned =>
    rcases hlearned with hlearned | hlearned
    · rw [hlearned, List.mem_singleton] at h
      cases h
    · rw [hlearned, List.mem_singleton] at h
      cases h
  | rollback _ hlearned =>
    rw [hlearned, List.mem_singleton] at h
    cases h

theorem issued_le (o : Occurrence machine) : o.pre.issued ≤ o.post.issued := by
  have hsame {b : Books} (h : o.post.books = b) (hb : b.issued = o.pre.issued) :
      o.pre.issued ≤ o.post.issued := by
    have h : o.post.issued = b.issued := congrArg Books.issued h
    exact Nat.le_of_eq (h.trans hb).symm
  cases effect o with
  | keep hpost => exact hsame hpost rfl
  | create _ _ _ _ _ _ hpost =>
    have hpost : o.post.issued = o.pre.issued + 1 := congrArg Books.issued hpost
    omega
  | update _ _ _ _ hpost => exact hsame hpost rfl
  | record _ hpost => exact hsame hpost rfl
  | commit _ hpost => exact hsame hpost rfl
  | rollback hpost => exact hsame hpost rfl

/-- What the threads have heard, once thread `i` has learned more. -/
def hears (told : ℕ → List Fact) (i : ℕ) (facts : List Fact) : ℕ → List Fact :=
  Function.update told i (told i ++ facts)

section Hears

variable {told : ℕ → List Fact} {i j : ℕ} {facts : List Fact} {fact : Fact}

theorem hears_self : hears told i facts i = told i ++ facts := Function.update_self ..

theorem hears_of_ne (h : j ≠ i) : hears told i facts j = told j := Function.update_of_ne h ..

theorem mem_hears : fact ∈ hears told i facts j ↔ fact ∈ told j ∨ j = i ∧ fact ∈ facts := by
  by_cases hj : j = i
  · subst hj
    rw [hears_self, List.mem_append]
    simp
  · rw [hears_of_ne hj]
    simp [hj]

theorem hears_grows : (progress (told j)).claims ⊆ (progress (hears told i facts j)).claims ∧
    ((progress (told j)).sent = true → (progress (hears told i facts j)).sent = true) := by
  by_cases hj : j = i
  · subst hj
    rw [hears_self]
    exact progress_grows ..
  · rw [hears_of_ne hj]
    exact ⟨List.Subset.refl _, fun h => h⟩

end Hears

/-- Claims of different threads are of different receipts, and a thread calls Gmail at most once,
for a receipt that it has claimed. -/
structure Told (told : ℕ → List Fact) (issued : ℕ) : Prop where
  below : ∀ i transport receipt, .created transport receipt ∈ told i → receipt.id < issued
  owner : ∀ i j transport transport' receipt receipt', .created transport receipt ∈ told i →
    .created transport' receipt' ∈ told j → receipt.id = receipt'.id → i = j
  sent : ∀ i id refused, .sent id refused ∈ told i → (progress (told i)).sent = true ∧
    ∃ transport receipt, (transport, receipt) ∈ (progress (told i)).claims ∧ receipt.id = id
  once : ∀ i id id' refused refused', .sent id refused ∈ told i → .sent id' refused' ∈ told i →
    id = id' ∧ refused = refused'

theorem Told.step {told : ℕ → List Fact} {o : Occurrence machine} (h : Told told o.pre.issued)
    (hneed : need o.stmt (told o.thread)) :
    Told (hears told o.thread (learned o)) o.post.issued := by
  have hnew {id : ℕ} {refused : Bool} (hsent : .sent id refused ∈ learned o) :
      learned o = [.sent id refused] ∧ (progress (told o.thread)).sent = false ∧
        ∃ transport receipt, (transport, receipt) ∈ (progress (told o.thread)).claims ∧
          receipt.id = id := by
    obtain ⟨hlearned, transport, receipt, hcalls, hid⟩ := learned_sent hsent
    obtain ⟨hfalse, snapshot, hclaim, -⟩ := need_calls hcalls hneed
    exact ⟨hlearned, hfalse, _, receipt, hclaim, hid⟩
  refine ⟨fun i transport receipt hmem => ?_, fun i j t t' r r' hi hj hid => ?_,
    fun i id refused hmem => ?_, fun i id id' refused refused' hmem hmem' => ?_⟩
  · rcases mem_hears.mp hmem with hold | ⟨-, hlearn⟩
    · exact Nat.lt_of_lt_of_le (h.below i transport receipt hold) (issued_le o)
    · obtain ⟨hid, hissued, -⟩ := learned_created hlearn
      omega
  · rcases mem_hears.mp hi with hold | ⟨rfl, hlearn⟩
    · rcases mem_hears.mp hj with hold' | ⟨rfl, hlearn'⟩
      · exact h.owner i j t t' r r' hold hold' hid
      · have hbelow := h.below i t r hold
        have hnew := (learned_created hlearn').1
        omega
    · rcases mem_hears.mp hj with hold' | ⟨rfl, -⟩
      · have hbelow := h.below j t' r' hold'
        have hnew := (learned_created hlearn).1
        omega
      · rfl
  · rcases mem_hears.mp hmem with hold | ⟨rfl, hlearn⟩
    · obtain ⟨hsent, transport, receipt, hclaim, hid⟩ := h.sent i id refused hold
      exact ⟨hears_grows.2 hsent, transport, receipt, hears_grows.1 hclaim, hid⟩
    · obtain ⟨hlearned, -, transport, receipt, hclaim, hid⟩ := hnew hlearn
      refine ⟨?_, transport, receipt, hears_grows.1 hclaim, hid⟩
      rw [hears_self, hlearned, progress_concat]
      rfl
  · rcases mem_hears.mp hmem with hold | ⟨rfl, hlearn⟩
    · rcases mem_hears.mp hmem' with hold' | ⟨rfl, hlearn'⟩
      · exact h.once i id id' refused refused' hold hold'
      · have hfalse := (hnew hlearn').2.1
        rw [(h.sent _ id refused hold).1] at hfalse
        cases hfalse
    · rcases mem_hears.mp hmem' with hold' | ⟨-, hlearn'⟩
      · have hfalse := (hnew hlearn).2.1
        rw [(h.sent _ id' refused' hold').1] at hfalse
        cases hfalse
      · rw [(hnew hlearn).1, List.mem_singleton] at hlearn'
        obtain ⟨rfl, rfl⟩ := Fact.sent.inj hlearn'
        exact ⟨rfl, rfl⟩

/-! ### What the transactions hold -/

/-- Thread `i` has the receipt in hand, which is accepted, with a version of the status. -/
def Books.InHand (b : Books) (i id : ℕ) (status : ReceiptStatus) : Prop :=
  ∃ r r', b.receipts.rows id = some r ∧ r.status = .acceptedPendingRecord ∧
    b.receipts.mine i id = some r' ∧ r'.status = status

/-- What thread `i` has written and not committed, at a stage. -/
def Holding (stage : Stage) (i : ℕ) (b : Books) : Prop :=
  match stage with
  | .idle => (∀ id, b.receipts.mine i id = none) ∧ b.recordedBy i = []
  | .claimed _ receipt => b.receipts.mine i receipt.id = some receipt ∧ b.recordedBy i = []
  | .moved => b.recordedBy i = []
  | .locked id => b.InHand i id .acceptedPendingRecord ∧ b.recordedBy i = []
  | .recorded id => b.InHand i id .acceptedPendingRecord ∧
      ∃ message, b.recordedBy i = [message] ∧ message.sendReceiptId = id
  | .completed id => b.InHand i id .completed ∧ (b.recordedBy i).length ≤ 1 ∧
      ∀ message ∈ b.recordedBy i, message.sendReceiptId = id
  | .failed => True

/-- A thread holds what it held while its rows stay as they are. -/
theorem Holding.frame {stage : Stage} {i : ℕ} {b b' : Books} (h : Holding stage i b)
    (hmine : b'.receipts.mine i = b.receipts.mine i)
    (hrows : ∀ id r, b.receipts.mine i id = some r → b'.receipts.rows id = b.receipts.rows id)
    (hrecorded : b'.recordedBy i = b.recordedBy i) : Holding stage i b' := by
  have hhand {id : ℕ} {status : ReceiptStatus} (h : b.InHand i id status) :
      b'.InHand i id status := by
    obtain ⟨r, r', hrow, hr, hr', hstatus⟩ := h
    refine ⟨r, r', ?_, hr, ?_, hstatus⟩
    · rw [hrows id r' hr', hrow]
    · rw [hmine, hr']
  cases stage with
  | idle => exact ⟨fun id => by rw [hmine, h.1 id], by rw [hrecorded, h.2]⟩
  | claimed transport receipt => exact ⟨by rw [hmine, h.1], by rw [hrecorded, h.2]⟩
  | moved => exact hrecorded.trans h
  | locked id => exact ⟨hhand h.1, by rw [hrecorded, h.2]⟩
  | recorded id =>
    refine ⟨hhand h.1, ?_⟩
    rw [hrecorded]
    exact h.2
  | completed id =>
    refine ⟨hhand h.1, ?_⟩
    rw [hrecorded]
    exact h.2
  | failed => trivial

theorem recordedBy_record {b : Books} {i j : ℕ} {message : HubMessage} :
    (b.record i message).recordedBy j = b.recordedBy j ++ if i = j then [message] else [] := by
  unfold Books.recordedBy Books.record
  rw [List.filter_append, List.map_append]
  by_cases hij : i = j
  · simp [hij]
  · simp [hij]

/-- The messages of the others stay where a transaction takes its own away. -/
theorem recordedBy_filter {recorded : List (ℕ × HubMessage)} {i j : ℕ} (hj : j ≠ i) :
    ((recorded.filter (·.1 ≠ i)).filter (·.1 = j)).map (·.2) =
      (recorded.filter (·.1 = j)).map (·.2) := by
  rw [List.filter_filter]
  refine congrArg (List.map _) (List.filter_congr fun row _ => ?_)
  by_cases hrow : row.1 = j
  · simp [hrow, hj]
  · simp [hrow]

theorem recordedBy_ended {recorded : List (ℕ × HubMessage)} {i : ℕ} :
    ((recorded.filter (·.1 ≠ i)).filter (·.1 = i)).map (·.2) = [] := by
  simp [List.filter_filter]

/-- What holds of the books and of what the threads were told. -/
structure Inv (told : ℕ → List Fact) (b : Books) : Prop where
  numbered : ∀ id r, b.receipts.Has id r → r.id = id ∧ id < b.issued
  apart : ∀ id id' r r', b.receipts.Has id r → b.receipts.Has id' r' → id ≠ id' → ¬ r.Rival r'
  grows : ∀ i id r', b.receipts.mine i id = some r' →
    (b.receipts.rows id = none ∧ r'.status = .dispatching) ∨
      ∃ r, b.receipts.rows id = some r ∧ r.Becomes r'
  holds : ∀ i, Holding (progress (told i)).stage i b
  recorded : ∀ id, (b.messagesOf id).length ≤ 1 ∧ (b.messagesOf id ≠ [] →
    ∃ r, b.receipts.rows id = some r ∧ r.status = .completed)
  refused : ∀ id r, b.receipts.Has id r → r.status = .rejected → ∃ i, .sent id true ∈ told i
  claims : ∀ i transport receipt, (transport, receipt) ∈ (progress (told i)).claims →
    ∃ row, b.receipts.rows receipt.id = some row ∧ row.identity = receipt.identity

section Steps

variable {told : ℕ → List Fact} {b : Books} {i id : ℕ} {facts : List Fact}

theorem refused_hears {j : ℕ} (h : ∃ i, .sent id true ∈ told i) :
    ∃ i, .sent id true ∈ hears told j facts i := by
  obtain ⟨i, hi⟩ := h
  exact ⟨i, mem_hears.mpr (.inl hi)⟩

/-- The others hold what they held, and thread `i` what its stage says. -/
theorem holds_hears {b' : Books}
    (hothers : ∀ j, j ≠ i → Holding (progress (told j)).stage j b')
    (hown : Holding (progress (told i ++ facts)).stage i b') :
    ∀ j, Holding (progress (hears told i facts j)).stage j b' := by
  intro j
  by_cases hj : j = i
  · subst hj
    rw [hears_self]
    exact hown
  · rw [hears_of_ne hj]
    exact hothers j hj

/-- Where thread `i` gets no new claim. -/
theorem claims_hears {j : ℕ} {claim : Transport × Receipt}
    (hsame : (progress (told i ++ facts)).claims = (progress (told i)).claims)
    (h : claim ∈ (progress (hears told i facts j)).claims) :
    claim ∈ (progress (told j)).claims := by
  by_cases hj : j = i
  · subst hj
    rw [hears_self, hsame] at h
    exact h
  · rw [hears_of_ne hj] at h
    exact h

theorem Inv.keep (h : Inv told b)
    (hclaims : (progress (told i ++ facts)).claims = (progress (told i)).claims)
    (hstage : (progress (told i ++ facts)).stage = (progress (told i)).stage ∨
      (progress (told i ++ facts)).stage = .failed) : Inv (hears told i facts) b where
  numbered := h.numbered
  apart := h.apart
  grows := h.grows
  holds := by
    refine holds_hears (fun j _ => h.holds j) ?_
    rcases hstage with hstage | hstage
    · rw [hstage]
      exact h.holds i
    · rw [hstage]
      trivial
  recorded := h.recorded
  refused id r hr hstatus := refused_hears (h.refused id r hr hstatus)
  claims j transport receipt hclaim := h.claims j transport receipt (claims_hears hclaims hclaim)

/-- A version is written of a receipt that is not there yet, or that the new version follows. -/
theorem Inv.write (h : Inv told b) {r' : Receipt} (hid : r'.id = id) (hissued : id < b.issued)
    (hlock : b.receipts.locked i id = false)
    (hrow : (b.receipts.rows id = none ∧ r'.status = .dispatching) ∨
      ∃ r, b.receipts.rows id = some r ∧ r.Becomes r')
    (hrival : ∀ k r, b.receipts.Has k r → k ≠ id → ¬ r'.Rival r)
    (hrefused : r'.status = .rejected → ∃ i, .sent id true ∈ told i)
    (hclaims : (progress (told i ++ facts)).claims = (progress (told i)).claims)
    (hholds : Holding (progress (told i ++ facts)).stage i (b.update i id r')) :
    Inv (hears told i facts) (b.update i id r') where
  numbered k r hr := by
    rcases Versions.Has.of_write hr with ⟨rfl, rfl⟩ | hr
    · exact ⟨hid, hissued⟩
    · exact h.numbered k r hr
  apart k k' r q hr hq hne := by
    rcases Versions.Has.of_write hr with ⟨rfl, rfl⟩ | hold
    · rcases Versions.Has.of_write hq with ⟨rfl, rfl⟩ | hold'
      · exact absurd rfl hne
      · exact hrival k' q hold' hne.symm
    · rcases Versions.Has.of_write hq with ⟨rfl, rfl⟩ | hold'
      · exact fun hrq => hrival k r hold hne hrq.symm
      · exact h.apart k k' r q hold hold' hne
  grows j k r hr := by
    rcases Versions.mine_write_eq_some.mp hr with ⟨rfl, -, rfl⟩ | ⟨-, hr⟩
    · exact hrow
    · exact h.grows j k r hr
  holds := by
    refine holds_hears (fun j hj => ?_) hholds
    exact (h.holds j).frame (Versions.mine_write_other hlock hj) (fun _ _ _ => rfl) rfl
  recorded := h.recorded
  refused k r hr hstatus := by
    rcases Versions.Has.of_write hr with ⟨rfl, rfl⟩ | hr
    · exact refused_hears (hrefused hstatus)
    · exact refused_hears (h.refused k r hr hstatus)
  claims j transport receipt hclaim := h.claims j transport receipt (claims_hears hclaims hclaim)

/-- A higher count of ids is as good. -/
theorem Inv.later (h : Inv told b) {n : ℕ} (hn : b.issued ≤ n) :
    Inv told { b with issued := n } where
  numbered id r hr := ⟨(h.numbered id r hr).1, Nat.lt_of_lt_of_le (h.numbered id r hr).2 hn⟩
  apart := h.apart
  grows := h.grows
  holds i := (h.holds i).frame rfl (fun _ _ _ => rfl) rfl
  recorded := h.recorded
  refused := h.refused
  claims := h.claims

/-- Only a thread with a version of it has written a receipt. -/
theorem Inv.fresh (h : Inv told b) :
    b.receipts.rows b.issued = none ∧ b.receipts.written b.issued = none := by
  constructor
  · rw [Option.eq_none_iff_forall_ne_some]
    intro r hr
    exact Nat.lt_irrefl _ (h.numbered b.issued r (.inl hr)).2
  · rw [Option.eq_none_iff_forall_ne_some]
    rintro ⟨j, r⟩ hr
    exact Nat.lt_irrefl _ (h.numbered b.issued r (.inr ⟨j, Versions.mine_eq_some.mpr hr⟩)).2

/-- The stage that a fact leads to, from one at which nothing is held. -/
theorem Inv.create (h : Inv told b) {receipt : Receipt} (hidle : (progress (told i)).stage = .idle)
    (hclear : ∀ k r, b.receipts.Has k r → k ≠ b.issued →
      r.clashes receipt.scope receipt.snapshot.payload.responseId = false)
    (hid : receipt.id = b.issued) (hstatus : receipt.status = .dispatching)
    (hfacts : facts = [.created ⟨receipt.mailbox, receipt.snapshot⟩ receipt] ∨ facts = [.failed]) :
    Inv (hears told i facts) (b.create i receipt) := by
  obtain ⟨hrow, hwritten⟩ := h.fresh
  have hmine := h.holds i
  rw [hidle] at hmine
  refine Inv.write (b := { b with issued := b.issued + 1 }) (h.later (Nat.le_succ _)) hid
    (Nat.lt_succ_self _) ?_ (.inl ⟨hrow, hstatus⟩) ?_ ?_ ?_ ?_
  · simp [Versions.locked, hwritten]
  · intro k r hr hne hrival
    have hclash := hclear k r hr hne
    rw [hrival.clashes] at hclash
    cases hclash
  · intro hrejected
    rw [hstatus] at hrejected
    cases hrejected
  · rcases hfacts with rfl | rfl
    · rw [progress_concat]
      rfl
    · rw [progress_concat]
      rfl
  · rcases hfacts with rfl | rfl
    · rw [progress_concat]
      refine ⟨?_, hmine.2⟩
      rw [hid]
      exact Versions.mine_write_eq_some.mpr (.inl ⟨rfl, rfl, rfl⟩)
    · rw [progress_concat]
      trivial

/-- A receipt that is due for an outcome has a row that the outcome follows. -/
theorem Inv.due_row (h : Inv told b) {outcome : Outcome} {status : ReceiptStatus} {r : Receipt}
    (hdue : outcome.due id status (told i)) (hread : b.receipts.read i id = some r)
    (hstatus : r.status = status) :
    ∃ row, b.receipts.rows id = some row ∧ row.identity = r.identity ∧ row.status = r.status := by
  have hidle (hidle : (progress (told i)).stage = .idle) :
      ∃ row, b.receipts.rows id = some row ∧ row.identity = r.identity ∧ row.status = r.status := by
    have hholds := h.holds i
    rw [hidle] at hholds
    rcases Versions.read_eq_some.mp hread with hmine | ⟨-, hrow⟩
    · cases (hholds.1 id).symm.trans hmine
    · exact ⟨r, hrow, rfl, rfl⟩
  have hhand (hhand : b.InHand i id .acceptedPendingRecord) :
      ∃ row, b.receipts.rows id = some row ∧ row.identity = r.identity ∧ row.status = r.status := by
    obtain ⟨row, r', hrow, hpending, hmine, hpending'⟩ := hhand
    have hr : r' = r := by
      rcases Versions.read_eq_some.mp hread with hown | ⟨hnone, -⟩
      · exact Option.some.inj (hmine.symm.trans hown)
      · cases hnone.symm.trans hmine
    subst hr
    rcases h.grows i id r' hmine with ⟨hnone, -⟩ | ⟨row', hrow', hbecomes⟩
    · cases hnone.symm.trans hrow
    · obtain rfl := Option.some.inj (hrow.symm.trans hrow')
      exact ⟨row, hrow, hbecomes.1.symm, hpending.trans hpending'.symm⟩
  cases outcome with
  | locked => exact hidle hdue.1
  | rejected => exact hidle hdue.1
  | unknown => exact hidle hdue.1
  | accepted sent => exact hidle hdue.1
  | completed hubMessageId =>
    have hholds := h.holds i
    rcases hdue.1 with hstage | hstage
    · rw [hstage] at hholds
      exact hhand hholds.1
    · rw [hstage] at hholds
      exact hhand hholds.1

/-- What is held once an outcome is stored. -/
theorem Inv.holds_update (h : Inv told b) {outcome : Outcome} {status : ReceiptStatus}
    {r row : Receipt} {now : Time} (hdue : outcome.due id status (told i))
    (hstatus : r.status = status)
    (hrow : b.receipts.rows id = some row) (hsame : row.status = r.status) :
    Holding (progress (told i ++ [outcome.fact id])).stage i
      (b.update i id (outcome.on now r)) := by
  have hholds := h.holds i
  have hmine : (b.update i id (outcome.on now r)).receipts.mine i id = some (outcome.on now r) :=
    Versions.mine_write_eq_some.mpr (.inl ⟨rfl, rfl, rfl⟩)
  rw [progress_concat]
  cases outcome with
  | locked =>
    rw [hdue.1] at hholds
    obtain rfl := hdue.2
    exact ⟨⟨row, _, hrow, hsame.trans hstatus, hmine, hstatus⟩, hholds.2⟩
  | rejected =>
    rw [hdue.1] at hholds
    exact hholds.2
  | unknown =>
    rw [hdue.1] at hholds
    exact hholds.2
  | accepted sent =>
    rw [hdue.1] at hholds
    exact hholds.2
  | completed hubMessageId =>
    obtain rfl := hdue.2
    refine ⟨⟨row, _, hrow, hsame.trans hstatus, hmine, rfl⟩, ?_⟩
    rcases hdue.1 with hstage | hstage
    · rw [hstage] at hholds
      have hnone : (b.update i id ((Outcome.completed hubMessageId).on now r)).recordedBy i = [] :=
        hholds.2
      rw [hnone]
      exact ⟨Nat.zero_le _, fun _ hmem => by cases hmem⟩
    · rw [hstage] at hholds
      obtain ⟨-, message, hrecorded, hid⟩ := hholds
      have hone : (b.update i id ((Outcome.completed hubMessageId).on now r)).recordedBy i =
        [message] := hrecorded
      rw [hone]
      exact ⟨Nat.le_refl _, fun _ hmem => List.mem_singleton.mp hmem ▸ hid⟩

theorem Inv.update (h : Inv told b) {outcome : Outcome} {status : ReceiptStatus} {r : Receipt}
    {now : Time} (hdue : outcome.due id status (told i)) (hlock : b.receipts.locked i id = false)
    (hread : b.receipts.read i id = some r) (hstatus : r.status = status)
    (hfacts : facts = [outcome.fact id] ∨ facts = [.failed]) :
    Inv (hears told i facts) (b.update i id (outcome.on now r)) := by
  obtain ⟨row, hrow, hidentity, hsame⟩ := h.due_row hdue hread hstatus
  obtain ⟨hon, hmoves⟩ := Outcome.on_becomes hdue hstatus now
  have hbecomes : row.Becomes (outcome.on now r) := by
    refine ⟨hon.trans hidentity.symm, ?_⟩
    rw [hsame]
    exact hmoves
  obtain ⟨hid, hissued⟩ := h.numbered id row (.inl hrow)
  refine h.write ?_ hissued hlock (.inr ⟨row, hrow, hbecomes⟩) ?_ ?_ ?_ ?_
  · exact (congrArg Prod.fst hbecomes.1).trans hid
  · exact fun k q hq hne hrival => h.apart id k row q (.inl hrow) hq hne.symm
      (hbecomes.rival hrival)
  · intro hrejected
    cases outcome with
    | rejected => exact ⟨i, hdue.2.2⟩
    | locked => exact h.refused id row (.inl hrow) (hsame.trans hrejected)
    | unknown => cases hrejected
    | accepted sent => cases hrejected
    | completed hubMessageId => cases hrejected
  · rcases hfacts with rfl | rfl
    · rw [progress_concat]
      cases outcome <;> rfl
    · rw [progress_concat]
      rfl
  · rcases hfacts with rfl | rfl
    · exact h.holds_update hdue hstatus hrow hsame
    · rw [progress_concat]
      trivial

theorem Inv.record (h : Inv told b) {message : HubMessage}
    (hstage : (progress (told i)).stage = .locked message.sendReceiptId)
    (hfacts : facts = [.recorded message.sendReceiptId] ∨ facts = [.failed]) :
    Inv (hears told i facts) (b.record i message) where
  numbered := h.numbered
  apart := h.apart
  grows := h.grows
  holds := by
    refine holds_hears (fun j hj => ?_) ?_
    · refine (h.holds j).frame rfl (fun _ _ _ => rfl) ?_
      rw [recordedBy_record, if_neg hj.symm, List.append_nil]
    · rcases hfacts with rfl | rfl
      · have hholds := h.holds i
        rw [hstage] at hholds
        rw [progress_concat]
        refine ⟨hholds.1, message, ?_, rfl⟩
        rw [recordedBy_record, if_pos rfl, hholds.2, List.nil_append]
      · rw [progress_concat]
        trivial
  recorded := h.recorded
  refused id r hr hstatus := refused_hears (h.refused id r hr hstatus)
  claims j transport receipt hclaim := by
    refine h.claims j transport receipt (claims_hears ?_ hclaim)
    rcases hfacts with rfl | rfl
    · rw [progress_concat]
      rfl
    · rw [progress_concat]
      rfl

theorem Inv.rollback (h : Inv told b) : Inv (hears told i [.undone]) (b.rollback i) where
  numbered k r hr := h.numbered k r hr.of_rollback
  apart k k' r q hr hq hne := h.apart k k' r q hr.of_rollback hq.of_rollback hne
  grows j k r hr := h.grows j k r (Versions.mine_rollback_eq_some.mp hr).2
  holds := by
    refine holds_hears (fun j hj => ?_) ?_
    · exact (h.holds j).frame (Versions.mine_rollback_other hj) (fun _ _ _ => rfl)
        (recordedBy_filter hj)
    · rw [progress_concat]
      exact ⟨fun _ => Versions.mine_rollback, recordedBy_ended⟩
  recorded := h.recorded
  refused id r hr hstatus := refused_hears (h.refused id r hr.of_rollback hstatus)
  claims j transport receipt hclaim := by
    refine h.claims j transport receipt (claims_hears ?_ hclaim)
    rw [progress_concat]
    rfl

/-- A commit leaves of a row what it has become. -/
theorem Inv.row_commit (h : Inv told b) {row : Receipt} (hrow : b.receipts.rows id = some row) :
    ∃ row', (b.commit i).receipts.rows id = some row' ∧ row.Becomes row' := by
  cases hmine : b.receipts.mine i id with
  | none =>
    exact ⟨row, Versions.rows_commit_eq_some.mpr (.inr ⟨hmine, hrow⟩), rfl, .inl rfl⟩
  | some row' =>
    refine ⟨row', Versions.rows_commit_eq_some.mpr (.inl hmine), ?_⟩
    rcases h.grows i id row' hmine with ⟨hnone, -⟩ | ⟨r, hr, hbecomes⟩
    · cases hnone.symm.trans hrow
    · obtain rfl := Option.some.inj (hrow.symm.trans hr)
      exact hbecomes

theorem Receipt.Becomes.completed {r r' : Receipt} (h : r.Becomes r') (hr : r.status = .completed) :
    r'.status = .completed := by
  rcases h.2 with hsame | hmoves
  · exact hsame.trans hr
  · rw [hr] at hmoves
    cases hs : r'.status <;> rw [hs] at hmoves <;> cases hmoves

theorem Inv.messages_commit (h : Inv told b) (hcloses : (progress (told i)).stage.closes = true)
    (id : ℕ) : ((b.commit i).messagesOf id).length ≤ 1 ∧ ((b.commit i).messagesOf id ≠ [] →
      ∃ r, (b.commit i).receipts.rows id = some r ∧ r.status = .completed) := by
  have hsplit : (b.commit i).messagesOf id =
      b.messagesOf id ++ (b.recordedBy i).filter (·.sendReceiptId = id) := List.filter_append ..
  obtain ⟨hlength, hcompleted⟩ := h.recorded id
  have hsame (hnone : (b.recordedBy i).filter (·.sendReceiptId = id) = []) :
      ((b.commit i).messagesOf id).length ≤ 1 ∧ ((b.commit i).messagesOf id ≠ [] →
        ∃ r, (b.commit i).receipts.rows id = some r ∧ r.status = .completed) := by
    rw [hsplit, hnone, List.append_nil]
    refine ⟨hlength, fun hne => ?_⟩
    obtain ⟨r, hrow, hr⟩ := hcompleted hne
    obtain ⟨r', hrow', hbecomes⟩ := h.row_commit (i := i) hrow
    exact ⟨r', hrow', hbecomes.completed hr⟩
  have hempty (hnone : b.recordedBy i = []) := hsame (by rw [hnone]; rfl)
  have hholds := h.holds i
  cases hstage : (progress (told i)).stage with
  | idle =>
    rw [hstage] at hholds
    exact hempty hholds.2
  | claimed transport receipt =>
    rw [hstage] at hholds
    exact hempty hholds.2
  | moved =>
    rw [hstage] at hholds
    exact hempty hholds
  | completed k =>
    rw [hstage] at hholds
    obtain ⟨⟨r, r', hrow, hr, hmine, hr'⟩, hone, hall⟩ := hholds
    by_cases hid : id = k
    · subst hid
      -- The row was not completed, so the receipt has left no message before.
      have hnone : b.messagesOf id = [] := by
        by_contra hne
        obtain ⟨q, hq, hstatus⟩ := hcompleted hne
        obtain rfl := Option.some.inj (hrow.symm.trans hq)
        cases hr.symm.trans hstatus
      rw [hsplit, hnone, List.nil_append]
      refine ⟨Nat.le_trans (List.length_filter_le ..) hone, fun _ => ?_⟩
      exact ⟨r', Versions.rows_commit_eq_some.mpr (.inl hmine), hr'⟩
    · refine hsame (List.filter_eq_nil_iff.mpr fun message hmem => ?_)
      rw [hall message hmem]
      simpa using fun h => hid h.symm
  | locked k => rw [hstage] at hcloses; cases hcloses
  | recorded k => rw [hstage] at hcloses; cases hcloses
  | failed => rw [hstage] at hcloses; cases hcloses

/-- The claims of a thread that has ended its transaction. -/
theorem claims_ended (hfacts : facts = [.committed] ∨ facts = [.undone])
    {claim : Transport × Receipt} (h : claim ∈ (progress (told i ++ facts)).claims) :
    claim ∈ (progress (told i)).claims ∨ (progress (told i)).stage = .claimed claim.1 claim.2 := by
  rcases hfacts with rfl | rfl
  · rw [progress_concat] at h
    have h : claim ∈ (progress (told i)).commit.claims := h
    unfold Progress.commit at h
    split at h
    · rename_i hstage
      rcases List.mem_append.mp h with h | h
      · exact .inl h
      · rw [List.mem_singleton.mp h]
        exact .inr hstage
    · exact .inl h
  · rw [progress_concat] at h
    exact .inl h

theorem Inv.commit (h : Inv told b) (hcloses : (progress (told i)).stage.closes = true)
    (hfacts : facts = [.committed] ∨ facts = [.undone]) :
    Inv (hears told i facts) (b.commit i) where
  numbered k r hr := h.numbered k r hr.of_commit
  apart k k' r q hr hq hne := h.apart k k' r q hr.of_commit hq.of_commit hne
  grows j k r hr := by
    obtain ⟨hj, hmine⟩ := Versions.mine_commit_eq_some.mp hr
    have hnone := Versions.mine_eq_none_of_ne hmine hj
    rcases h.grows j k r hmine with ⟨hrow, hstatus⟩ | ⟨row, hrow, hbecomes⟩
    · exact .inl ⟨Versions.rows_commit_eq_none.mpr ⟨hnone, hrow⟩, hstatus⟩
    · exact .inr ⟨row, Versions.rows_commit_eq_some.mpr (.inr ⟨hnone, hrow⟩), hbecomes⟩
  holds := by
    refine holds_hears (fun j hj => ?_) ?_
    · refine (h.holds j).frame (Versions.mine_rollback_other hj) (fun k r hmine => ?_)
        (recordedBy_filter hj)
      change (b.receipts.mine i k).or (b.receipts.rows k) = _
      rw [Versions.mine_eq_none_of_ne hmine hj, Option.none_or]
    · have hidle : (progress (told i ++ facts)).stage = .idle := by
        rcases hfacts with rfl | rfl
        · exact stage_committed _
        · exact stage_undone _
      rw [hidle]
      exact ⟨fun _ => Versions.mine_rollback, recordedBy_ended⟩
  recorded := h.messages_commit hcloses
  refused id r hr hstatus := refused_hears (h.refused id r hr.of_commit hstatus)
  claims j transport receipt hclaim := by
    have hold (hclaim : (transport, receipt) ∈ (progress (told j)).claims) :
        ∃ row, (b.commit i).receipts.rows receipt.id = some row ∧
          row.identity = receipt.identity := by
      obtain ⟨row, hrow, hidentity⟩ := h.claims j transport receipt hclaim
      obtain ⟨row', hrow', hbecomes⟩ := h.row_commit (i := i) hrow
      exact ⟨row', hrow', hbecomes.1.trans hidentity⟩
    by_cases hj : j = i
    · subst hj
      rw [hears_self] at hclaim
      rcases claims_ended hfacts hclaim with hclaim | hstage
      · exact hold hclaim
      · have hholds := h.holds j
        rw [hstage] at hholds
        exact ⟨receipt, Versions.rows_commit_eq_some.mpr (.inl hholds.1), rfl⟩
    · rw [hears_of_ne hj] at hclaim
      exact hold hclaim

end Steps

/-- Nothing that a new receipt could clash with is there, where its thread holds nothing. -/
theorem Inv.clear {told : ℕ → List Fact} {o : Occurrence machine} {receipt : Receipt}
    (h : Inv told o.pre.books) (hidle : (progress (told o.thread)).stage = .idle)
    (hfree : o.pre.contended o.thread receipt.scope receipt.snapshot.payload.responseId = false)
    (hclear : ∀ r ∈ o.pre.seen o.thread,
      r.clashes receipt.scope receipt.snapshot.payload.responseId = false) :
    ∀ k r, o.pre.books.receipts.Has k r →
      r.clashes receipt.scope receipt.snapshot.payload.responseId = false := by
  intro k r hr
  have hissued : k < o.pre.issued := (h.numbered k r hr).2
  have hnone : o.pre.receipts.mine o.thread k = none := by
    have hholds := h.holds o.thread
    rw [hidle] at hholds
    exact hholds.1 k
  cases hlocked : o.pre.receipts.locked o.thread k with
  | true =>
    have hk := List.any_eq_false.mp hfree k (List.mem_range.mpr hissued)
    rw [hlocked, Bool.true_and, Bool.not_eq_true, Bool.or_eq_false_iff] at hk
    rcases hr with hrow | ⟨j, hmine⟩
    · have hk := hk.1
      rw [show o.pre.receipts.rows k = some r from hrow, Option.any_some] at hk
      exact hk
    · have hk := hk.2
      have hwritten : o.pre.receipts.written k = some (j, r) := Versions.mine_eq_some.mp hmine
      rw [hwritten, Option.any_some] at hk
      exact hk
  | false =>
    have hwritten : o.pre.receipts.written k = none := by
      rw [Option.eq_none_iff_forall_ne_some]
      rintro ⟨j, q⟩ hq
      by_cases hj : j = o.thread
      · subst hj
        cases hnone.symm.trans (Versions.mine_eq_some.mpr hq)
      · simp [Versions.locked, hq, hj] at hlocked
    have hrow : o.pre.receipts.rows k = some r := by
      rcases hr with hrow | ⟨j, hmine⟩
      · exact hrow
      · cases hwritten.symm.trans (Versions.mine_eq_some.mp hmine)
    refine hclear r (List.mem_filterMap.mpr ⟨k, List.mem_range.mpr hissued, ?_⟩)
    exact Versions.read_eq_some.mpr (.inr ⟨hnone, hrow⟩)

theorem Inv.step {told : ℕ → List Fact} {o : Occurrence machine} (h : Inv told o.pre.books)
    (hneed : need o.stmt (told o.thread)) (he : machine.enabled o.thread o.stmt o.pre = true) :
    Inv (hears told o.thread (learned o)) o.post.books := by
  cases effect o with
  | keep hpost hstage =>
    rw [hpost]
    exact h.keep (hstage _).1 (hstage _).2
  | create hidle _ hfree hclear hid hstatus hpost hlearned =>
    rw [hpost]
    have hidle := (hidle _ hneed).1
    exact h.create hidle (fun k r hr _ => h.clear hidle (hfree he) hclear k r hr) hid
      hstatus hlearned
  | update hdue hfree hread hstatus hpost hlearned =>
    rw [hpost]
    exact h.update (hdue _ hneed) (hfree he) hread hstatus hlearned
  | record hstage hpost hlearned =>
    rw [hpost]
    exact h.record (hstage _ hneed) hlearned
  | commit hcloses hpost hlearned =>
    rw [hpost]
    exact h.commit (hcloses _ hneed) hlearned
  | rollback hpost hlearned =>
    rw [hpost, hlearned]
    exact h.rollback

end Ashbi.Gmail

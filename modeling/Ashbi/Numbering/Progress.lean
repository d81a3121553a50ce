import Mathlib.Data.List.Nodup
import Mathlib.Data.List.Range
import Mathlib.Logic.Relation
import Ashbi.Numbering.Order

/-! When a number can be allocated. -/

namespace Ashbi.Numbering

open Interleaving

variable {clients : String → Option String} {db u t : Db} {i d : ℕ} {organizationId : String}
  {year : ℤ}

theorem formatInvoiceNumber_injective (year : ℤ) :
    Function.Injective (formatInvoiceNumber year) := by
  intro m n h
  have hpad : padStart (toString m) = padStart (toString n) := by
    unfold formatInvoiceNumber at h
    have hlist := congrArg String.toList h
    simp only [String.toList_append, List.append_assoc, List.append_cancel_left_eq] at hlist
    exact String.toList_inj.mp hlist
  have hvalue : ∀ k : ℕ, Nat.ofDigitChars 10 (padStart (toString k)).toList 0 = k := by
    intro k
    unfold padStart
    rw [String.toList_append, String.toList_ofList, Nat.ofDigitChars_append,
      Nat.ofDigitChars_replicate_zero, Nat.toString_eq_repr, Nat.toList_repr, Nat.mul_zero,
      Nat.ofDigitChars_ten_toDigits]
  rw [← hvalue m, hpad, hvalue]

/-! ### Numbers after the counter -/

/-- The last value that the counter gave. -/
def Db.lastValue (db : Db) (key : String × ℤ) : ℕ := (db.counters.rows key).getD 0

/-- A stored invoice has the number `n` of the year. -/
def Db.Taken (db : Db) (organizationId : String) (year : ℤ) (n : ℕ) : Prop :=
  ∃ invoice ∈ db.invoices, invoice.key = (organizationId, formatInvoiceNumber year n)

/-- No transaction is open. -/
structure Db.Settled (db : Db) : Prop where
  counters : db.counters.Settled
  inserted : db.inserted = []

/-- The transaction of thread `i` has taken `d` values of the counter and written nothing else. -/
structure Tried (i : ℕ) (key : String × ℤ) (d : ℕ) (db u : Db) : Prop where
  invoices : u.invoices = db.invoices
  inserted : u.inserted = []
  next : (u.counters.read i key).elim 1 (· + 1) = db.lastValue key + d + 1
  undone : u.rollback i = db
  open_ : ∀ key', u.counters.locked i key' = false

theorem Db.Settled.rollback (h : db.Settled) : db.rollback i = db := by
  obtain ⟨counters, invoices, inserted⟩ := db
  obtain rfl : inserted = [] := h.inserted
  unfold Db.rollback
  congr 1
  exact h.counters.rollback

theorem Db.Settled.tried (h : db.Settled) (key : String × ℤ) : Tried i key 0 db db := by
  refine ⟨rfl, h.inserted, ?_, h.rollback, fun _ => h.counters.locked⟩
  rw [h.counters.read, Db.lastValue]
  cases db.counters.rows key <;> simp

theorem Tried.increment {key : String × ℤ} (h : Tried i key d db u) :
    (db.lastValue key + d + 1 ≤ maxInteger ∧
      (increment i key u).1 = .ok (db.lastValue key + d + 1) ∧
      Tried i key (d + 1) db (increment i key u).2) ∨
    (maxInteger < db.lastValue key + d + 1 ∧
      increment i key u = (.error .integerOutOfRange, u)) := by
  unfold Numbering.increment
  dsimp only
  rw [h.next]
  split
  · rename_i hover
    exact .inr ⟨hover, rfl⟩
  · rename_i hle
    refine .inl ⟨Nat.le_of_not_lt hle, rfl, h.invoices, h.inserted, ?_, ?_, fun key' =>
      Versions.locked_write (h.open_ key')⟩
    · rw [Versions.read_write]
      rfl
    · rw [← h.undone]
      unfold Db.rollback
      dsimp only
      rw [Versions.rollback_write (h.open_ key)]

theorem Tried.taken {key : String × ℤ} (h : Tried i key d db u) (organizationId : String) (year : ℤ)
    (n : ℕ) :
    (u.invoices ++ u.insertedBy i).any (·.key = (organizationId, formatInvoiceNumber year n)) =
      true ↔ db.Taken organizationId year n := by
  rw [h.invoices, Db.insertedBy, h.inserted]
  simp [Db.Taken]

/-- Of the values after the counter, `k` is the first whose number is free. -/
structure First (db : Db) (organizationId : String) (year : ℤ) (d attempts k : ℕ) : Prop where
  after : d < k
  within : k ≤ d + attempts
  range : db.lastValue (organizationId, year) + k ≤ maxInteger
  free : ¬ db.Taken organizationId year (db.lastValue (organizationId, year) + k)
  first : ∀ k', d < k' → k' < k →
    db.Taken organizationId year (db.lastValue (organizationId, year) + k')

/-- The allocation of that value. -/
def allocatedAt (db : Db) (organizationId : String) (year : ℤ) (k : ℕ) : Allocated :=
  let lastValue := db.lastValue (organizationId, year) + k
  ⟨formatInvoiceNumber year lastValue, organizationId, (year, lastValue)⟩

/-- The search goes on behind a number that is taken. -/
theorem First.skip {attempts k : ℕ} (h : First db organizationId year (d + 1) attempts k)
    (htaken : db.Taken organizationId year (db.lastValue (organizationId, year) + d + 1)) :
    First db organizationId year d (attempts + 1) k where
  after := by have := h.after; omega
  within := by have := h.within; omega
  range := h.range
  free := h.free
  first k' hafter hbefore := by
    rcases Nat.lt_or_ge (d + 1) k' with hlt | hge
    · exact h.first k' hlt hbefore
    · obtain rfl : k' = d + 1 := by omega
      exact htaken

theorem First.next {attempts : ℕ}
    (hle : db.lastValue (organizationId, year) + d + 1 ≤ maxInteger)
    (hfree : ¬ db.Taken organizationId year (db.lastValue (organizationId, year) + d + 1)) :
    First db organizationId year d (attempts + 1) (d + 1) where
  after := by omega
  within := by omega
  range := hle
  free := hfree
  first k' hafter hbefore := by omega

/-- An allocation that runs alone finds the first free number, or leaves nothing behind. -/
theorem allocate_ends (attempts : ℕ) (h : Tried i (organizationId, year) d db u)
    {r : Except Failure Allocated}
    (hend : (allocate organizationId year attempts).run.Ends (M := machine clients) i u r t) :
    t.rollback i = db ∧ ∀ a, r = .ok a → ∃ k, First db organizationId year d attempts k ∧
      a = allocatedAt db organizationId year k ∧ Tried i (organizationId, year) k db t := by
  induction attempts generalizing d u with
  | zero =>
    obtain ⟨rfl, rfl⟩ := hend
    exact ⟨h.undone, fun a ha => by cases ha⟩
  | succ attempts ih =>
    obtain ⟨ch, -, hnext⟩ := Throws.ends_stmt_bind hend
    cases ch with
    | interrupted =>
      obtain ⟨lastValue, hlast, -⟩ | ⟨e, -, rfl, rfl⟩ := hnext
      · cases hlast
      · exact ⟨h.undone, fun a ha => by cases ha⟩
    | answered =>
    rcases h.increment with ⟨hle, hok, hstep⟩ | ⟨-, hover⟩
    · obtain ⟨lastValue, hlast, hend⟩ | ⟨e, he, -, -⟩ := hnext
      · obtain rfl := Except.ok.inj (hok.symm.trans hlast)
        obtain ⟨ch, -, hnext⟩ := Throws.ends_stmt_bind hend
        cases ch with
        | interrupted =>
          obtain ⟨taken, htaken, -⟩ | ⟨e, -, rfl, rfl⟩ := hnext
          · cases htaken
          · exact ⟨hstep.undone, fun a ha => by cases ha⟩
        | answered =>
          obtain ⟨taken, htaken, hend⟩ | ⟨e, he, -, -⟩ := hnext
          · have hiff := hstep.taken organizationId year
              (db.lastValue (organizationId, year) + d + 1)
            obtain rfl := Except.ok.inj htaken
            split at hend
            · rename_i htaken
              obtain ⟨hundone, hall⟩ := ih hstep hend
              refine ⟨hundone, fun a ha => ?_⟩
              obtain ⟨k, hfirst, hk⟩ := hall a ha
              exact ⟨k, hfirst.skip (hiff.mp htaken), hk⟩
            · rename_i hfree
              obtain ⟨rfl, rfl⟩ := hend
              refine ⟨hstep.undone, fun a ha => ?_⟩
              obtain rfl := Except.ok.inj ha
              exact ⟨d + 1, First.next hle fun htaken => hfree (hiff.mpr htaken), rfl, hstep⟩
          · cases he
      · rw [show (Numbering.exec clients i (.increment organizationId year) .answered u).1 = _
          from hok] at he
        cases he
    · obtain ⟨lastValue, hlast, -⟩ | ⟨e, -, rfl, rfl⟩ := hnext
      · have hfails : (increment i (organizationId, year) u).1 = .ok lastValue := hlast
        rw [hover] at hfails
        cases hfails
      · have hsame : (increment i (organizationId, year) u).2 = u := by rw [hover]
        refine ⟨?_, fun a ha => by cases ha⟩
        change (increment i (organizationId, year) u).2.rollback i = db
        rw [hsame]
        exact h.undone

/-- Undisturbed, it does find one of the numbers that it tries. -/
theorem allocate_finds (clients : String → Option String) {attempts k : ℕ}
    (h : Tried i (organizationId, year) d db u)
    (hfirst : First db organizationId year d attempts k) : ∃ t,
    Tried i (organizationId, year) k db t ∧
      (allocate organizationId year attempts).run.Ends (M := machine clients) i u
        (.ok (allocatedAt db organizationId year k)) t := by
  induction attempts generalizing d u with
  | zero =>
    have hafter := hfirst.after
    have hwithin := hfirst.within
    omega
  | succ attempts ih =>
    have hafter := hfirst.after
    have hwithin := hfirst.within
    have hrange := hfirst.range
    have he : enabled clients i (.increment organizationId year) u = true := by
      simp [enabled, h.open_]
    rcases h.increment with ⟨-, hok, hstep⟩ | ⟨hover, -⟩
    · have hiff := hstep.taken organizationId year
        (db.lastValue (organizationId, year) + d + 1)
      by_cases hk : k = d + 1
      · subst hk
        have hfree := Bool.eq_false_iff.mpr fun htaken => hfirst.free (hiff.mp htaken)
        refine ⟨(increment i (organizationId, year) u).2, hstep,
          Throws.ends_stmt_ok Choice.answered he hok
            (Throws.ends_stmt_ok Choice.answered rfl (congrArg Except.ok hfree) ?_)⟩
        exact ⟨rfl, rfl⟩
      · have htaken := hfirst.first (d + 1) (by omega) (by omega)
        obtain ⟨t, htried, hend⟩ := ih hstep
          ⟨by omega, by omega, hrange, hfirst.free, fun k' h h' => hfirst.first k' (by omega) h'⟩
        exact ⟨t, htried, Throws.ends_stmt_ok Choice.answered he hok
          (Throws.ends_stmt_ok Choice.answered rfl (congrArg Except.ok (hiff.mpr htaken)) hend)⟩
    · omega

/-! ### A request that runs alone -/

variable {clientId : String} {requested : Option String} {now : Time}

/-- The caller's organization, where there is one, is the client's. -/
def Agrees (requested : Option String) (organizationId : String) : Prop :=
  (requested.filter (· ≠ "")).any (· ≠ organizationId) = false

/-- The invoice with the `k`th number after the counter. -/
def invoiceAt (db : Db) (clientId organizationId : String) (year : ℤ) (k : ℕ) : Invoice :=
  let lastValue := db.lastValue (organizationId, year) + k
  ⟨organizationId, clientId, formatInvoiceNumber year lastValue, some (year, lastValue)⟩

/-- What the transaction of a request does before its end. -/
def createBody (clientId : String) (requested : Option String) (now : Time) :
    Throws Stmt Failure Invoice := do
  let allocated ← allocateInvoiceNumber clientId requested now
  Throws.stmt (.insert clientId allocated.invoiceNumber (some allocated.given))

theorem insert_tried {k : ℕ} (hclient : clients clientId = some organizationId)
    (h : Tried i (organizationId, year) d db u)
    (hfree : ¬ db.Taken organizationId year (db.lastValue (organizationId, year) + k)) :
    insertInvoice clients i clientId (allocatedAt db organizationId year k).invoiceNumber
      (some (allocatedAt db organizationId year k).given) u =
      (.ok (invoiceAt db clientId organizationId year k),
        { u with inserted := [(i, invoiceAt db clientId organizationId year k)] }) := by
  have hany := Bool.eq_false_iff.mpr fun htaken =>
    hfree ((h.taken _ _ (db.lastValue (organizationId, year) + k)).mp htaken)
  unfold insertInvoice
  rw [hclient]
  dsimp only
  rw [if_neg (by simpa [Invoice.key, allocatedAt] using hany), h.inserted]
  rfl

theorem createBody_ends (hclient : clients clientId = some organizationId)
    (hagrees : Agrees requested organizationId) (hsettled : db.Settled) {r : Except Failure Invoice}
    (hend : (createBody clientId requested now).run.Ends (M := machine clients) i db r t) :
    t.rollback i = db ∧ ∀ invoice, r = .ok invoice → t.invoices = db.invoices ∧
      ∃ k, First db organizationId (utcFullYear now) 0 maxAllocationAttempts k ∧
        invoice = invoiceAt db clientId organizationId (utcFullYear now) k ∧
        t.inserted = [(i, invoice)] := by
  unfold createBody at hend
  rw [Throws.run_bind] at hend
  obtain ⟨a, u, halloc, hend⟩ := Prog.ends_bind hend
  have hall : u.rollback i = db ∧ ∀ b, a = .ok b → ∃ k,
      First db organizationId (utcFullYear now) 0 maxAllocationAttempts k ∧
      b = allocatedAt db organizationId (utcFullYear now) k ∧
      Tried i (organizationId, utcFullYear now) k db u := by
    obtain ⟨ch, -, hnext⟩ := Throws.ends_stmt_bind halloc
    cases ch with
    | interrupted =>
      obtain ⟨owner, howner, -⟩ | ⟨e, -, rfl, rfl⟩ := hnext
      · cases howner
      · exact ⟨hsettled.rollback, fun b hb => by cases hb⟩
    | answered =>
      obtain ⟨owner, howner, halloc⟩ | ⟨e, he, -, -⟩ := hnext
      · obtain rfl : clients clientId = owner := Except.ok.inj howner
        rw [hclient] at halloc
        dsimp only at halloc
        rw [if_neg (by rw [hagrees]; exact Bool.false_ne_true)] at halloc
        have hends := allocate_ends maxAllocationAttempts (hsettled.tried _) halloc
        exact hends
      · cases he
  obtain ⟨hundone, hfound⟩ := hall
  cases a with
  | error e =>
    obtain ⟨rfl, rfl⟩ := hend
    exact ⟨hundone, fun invoice hr => by cases hr⟩
  | ok b =>
    obtain ⟨k, hfirst, rfl, htried⟩ := hfound b rfl
    obtain ⟨ch, -, rfl, rfl⟩ := hend
    cases ch with
    | interrupted => exact ⟨hundone, fun invoice hr => by cases hr⟩
    | answered =>
      have hinsert := insert_tried hclient htried hfirst.free
      have hexec : (machine clients).exec i (.insert clientId
          (allocatedAt db organizationId (utcFullYear now) k).invoiceNumber
          (some (allocatedAt db organizationId (utcFullYear now) k).given)) .answered u = _ :=
            hinsert
      rw [hexec]
      refine ⟨?_, fun invoice hr => ⟨htried.invoices, k, hfirst, ?_, ?_⟩⟩
      · rw [← hundone]
        simp [Db.rollback, htried.inserted]
      · exact (Except.ok.inj hr).symm
      · rw [← Except.ok.inj hr]

theorem createBody_finds {k : ℕ} (hclient : clients clientId = some organizationId)
    (hagrees : Agrees requested organizationId) (hsettled : db.Settled)
    (hfirst : First db organizationId (utcFullYear now) 0 maxAllocationAttempts k) : ∃ t,
    (createBody clientId requested now).run.Ends (M := machine clients) i db
      (.ok (invoiceAt db clientId organizationId (utcFullYear now) k)) t := by
  obtain ⟨u, htried, halloc⟩ := allocate_finds clients (i := i)
    (hsettled.tried (organizationId, utcFullYear now)) hfirst
  have hnumber : (allocateInvoiceNumber clientId requested now).run.Ends (M := machine clients) i
      db (.ok (allocatedAt db organizationId (utcFullYear now) k)) u := by
    refine Throws.ends_stmt_ok Choice.answered rfl rfl ?_
    rw [hclient]
    dsimp only
    rw [if_neg (by rw [hagrees]; exact Bool.false_ne_true)]
    exact halloc
  have hinsert := insert_tried hclient htried hfirst.free
  have he : enabled clients i (.insert clientId
      (allocatedAt db organizationId (utcFullYear now) k).invoiceNumber
      (some (allocatedAt db organizationId (utcFullYear now) k).given)) u = true := by
    simp [enabled, htried.inserted]
  unfold createBody
  rw [Throws.run_bind]
  exact ⟨_, Prog.Ends.bind hnumber ⟨Choice.answered, he, (congrArg Prod.fst hinsert).symm,
    (congrArg Prod.snd hinsert).symm⟩⟩

/-- What becomes of a request that runs alone on a settled database. -/
structure Attempt (clients : String → Option String) (db : Db) (i : ℕ) (clientId : String)
    (requested : Option String) (organizationId : String) (now : Time) : Prop where
  failed : ∀ e t, (createNumberedInvoice clientId requested now).run.Ends (M := machine clients) i
    db (.error e) t → t = db
  created : ∀ invoice t, (createNumberedInvoice clientId requested now).run.Ends
    (M := machine clients) i db (.ok invoice) t → ∃ k,
      First db organizationId (utcFullYear now) 0 maxAllocationAttempts k ∧
      invoice = invoiceAt db clientId organizationId (utcFullYear now) k ∧
      t.invoices = db.invoices ++ [invoice]
  succeeds : (∃ invoice t, (createNumberedInvoice clientId requested now).run.Ends
    (M := machine clients) i db (.ok invoice) t) ↔ ∃ k, 0 < k ∧ k ≤ maxAllocationAttempts ∧
      db.lastValue (organizationId, utcFullYear now) + k ≤ maxInteger ∧
      ¬ db.Taken organizationId (utcFullYear now)
        (db.lastValue (organizationId, utcFullYear now) + k)

/-- The first of the free numbers. -/
theorem exists_first {attempts k : ℕ} (hpos : 0 < k) (hk : k ≤ attempts)
    (hrange : db.lastValue (organizationId, year) + k ≤ maxInteger)
    (hfree : ¬ db.Taken organizationId year (db.lastValue (organizationId, year) + k)) :
    ∃ k', First db organizationId year 0 attempts k' := by
  classical
  have hexists : ∃ k', 0 < k' ∧
      ¬ db.Taken organizationId year (db.lastValue (organizationId, year) + k') := ⟨k, hpos, hfree⟩
  have hle := Nat.find_min' hexists ⟨hpos, hfree⟩
  obtain ⟨hafter, hnot⟩ := Nat.find_spec hexists
  refine ⟨Nat.find hexists, hafter, by omega, by omega, hnot, fun k' h0 hlt => ?_⟩
  have hmin := Nat.find_min hexists hlt
  by_contra htaken
  exact hmin ⟨h0, htaken⟩

theorem attempt (hclient : clients clientId = some organizationId)
    (hagrees : Agrees requested organizationId) (hsettled : db.Settled) :
    Attempt clients db i clientId requested organizationId now := by
  have hcreated : ∀ invoice t, (createNumberedInvoice clientId requested now).run.Ends
      (M := machine clients) i db (.ok invoice) t → ∃ k,
        First db organizationId (utcFullYear now) 0 maxAllocationAttempts k ∧
        invoice = invoiceAt db clientId organizationId (utcFullYear now) k ∧
        t.invoices = db.invoices ++ [invoice] := by
    intro invoice t hend
    obtain ⟨a, u, ch, hbody, -, hr, rfl⟩ | ⟨e, u, ch, -, hr, -⟩ := Throws.ends_transaction hend
    · cases ch with
      | interrupted => cases hr
      | answered =>
        obtain rfl := Except.ok.inj hr
        obtain ⟨-, hok⟩ := createBody_ends hclient hagrees hsettled hbody
        obtain ⟨hinvoices, k, hfirst, hinvoice, hinserted⟩ := hok invoice rfl
        refine ⟨k, hfirst, hinvoice, ?_⟩
        change u.invoices ++ u.insertedBy i = _
        rw [hinvoices, Db.insertedBy, hinserted]
        simp
    · cases hr
  refine ⟨fun e t hend => ?_, hcreated, ⟨?_, ?_⟩⟩
  · obtain ⟨a, u, ch, hbody, -, hr, rfl⟩ | ⟨e', u, ch, hbody, -, rfl⟩ :=
      Throws.ends_transaction hend
    · cases ch with
      | interrupted => exact (createBody_ends hclient hagrees hsettled hbody).1
      | answered => cases hr
    · cases ch <;> exact (createBody_ends hclient hagrees hsettled hbody).1
  · rintro ⟨invoice, t, hend⟩
    obtain ⟨k, hfirst, -⟩ := hcreated invoice t hend
    exact ⟨k, hfirst.after, by simpa using hfirst.within, hfirst.range, hfirst.free⟩
  · rintro ⟨k, hpos, hk, hrange, hfree⟩
    obtain ⟨k', hfirst⟩ := exists_first hpos hk hrange hfree
    obtain ⟨t, hbody⟩ := createBody_finds (i := i) hclient hagrees hsettled hfirst
    exact ⟨_, _, Throws.ends_transaction_ok Choice.answered hbody rfl rfl⟩

/-! ### Every reachable database -/

/-- What holds of the numbers in a database. -/
structure Numbered (clients : String → Option String) (db : Db) : Prop where
  unique : (db.invoices.map Invoice.key).Nodup
  formatted : ∀ invoice ∈ db.invoices, ∀ year n, invoice.given = some (year, n) →
    invoice.invoiceNumber = formatInvoiceNumber year n
  increasing : ∀ organizationId year,
    (db.invoices.filterMap (·.sequence organizationId year)).Pairwise (· < ·)
  alone : db.Settled → ∀ i clientId requested organizationId now,
    clients clientId = some organizationId → Agrees requested organizationId →
      Attempt clients db i clientId requested organizationId now

theorem numbers_in_order {db₀ : Db} {tr : List (Occurrence (machine clients))}
    {c : Config (machine clients)} (h0 : db₀.Start)
    (h : Run (M := machine clients) Requested db₀ tr c) : Numbered clients c.state := by
  have hinv : Db.Inv c.state := (run_holds h0 h).inv
  refine ⟨?_, fun invoice hin => hinv.formatted invoice (List.mem_append_left _ hin),
    hinv.increasing, fun hsettled i clientId requested organizationId now hclient hagrees =>
      attempt hclient hagrees hsettled⟩
  exact hinv.unique.sublist ((List.sublist_append_left _ _).map _)

def oneClient (clientId : String) : Option String :=
    if clientId = "client" then some "org" else none

/-- A request on 1 January 2026 and an import that takes its first number. -/
def sampleThreads : Config (machine oneClient) where
  state := ⟨⟨fun _ => none, fun _ => none⟩, [], []⟩
  threads := [(Request.create "client" none 1767225600000).program,
    (Request.insert [("client", "INV-2026-0001")]).program]

def sampleSchedule : List (ℕ × Choice) := [0, 0, 1, 1, 0, 0, 0, 0, 0].map (·, .answered)

theorem numbers_in_order_sample : Numbered oneClient (sampleThreads.play sampleSchedule).state ∧
    (Db.invoices (sampleThreads.play sampleSchedule).state).map Invoice.invoiceNumber =
      ["INV-2026-0001", "INV-2026-0002"] := by
  have hstart : Db.Start sampleThreads.state :=
    ⟨fun _ => rfl, rfl, List.nodup_nil, fun _ h => by cases h⟩
  have hrun : Run (M := machine oneClient) Requested sampleThreads.state
      (sampleThreads.played sampleSchedule) (sampleThreads.play sampleSchedule) := by
    refine Run.of_schedule sampleThreads.threads (fun p hp => ?_) sampleSchedule
    rcases List.mem_cons.mp hp with rfl | hp
    · exact ⟨_, rfl⟩
    · exact ⟨_, List.mem_singleton.mp hp⟩
  exact ⟨numbers_in_order hstart hrun, by decide +kernel⟩

/-! ### Fifty taken numbers -/

/-- The counter is new, and an import has taken the first fifty numbers of 2026. -/
def importedDb : Db where
  counters := ⟨fun _ => none, fun _ => none⟩
  invoices := (List.range maxAllocationAttempts).map fun n =>
    ⟨"org", "client", formatInvoiceNumber 2026 (n + 1), none⟩
  inserted := []

theorem importedDb_start : importedDb.Start where
  settled _ := rfl
  inserted := rfl
  unique := by
    unfold importedDb
    rw [List.map_map]
    refine List.Nodup.map ?_ List.nodup_range
    intro m n h
    have hnumber := formatInvoiceNumber_injective 2026 (congrArg Prod.snd h)
    omega
  own invoice hin := by
    obtain ⟨n, -, rfl⟩ := List.mem_map.mp hin
    rfl

theorem importedDb_taken {k : ℕ} (hpos : 0 < k) (hk : k ≤ maxAllocationAttempts) :
    importedDb.Taken "org" 2026 k := by
  refine ⟨_, List.mem_map.mpr ⟨k - 1, List.mem_range.mpr (by omega), rfl⟩, ?_⟩
  rw [Nat.sub_add_cancel hpos]
  rfl

/-- One of the requests of a year that run alone and fail. -/
def FailedCall (clients : String → Option String) (clientId : String) (year : ℤ)
    (s t : Db) : Prop :=
  ∃ i now e, utcFullYear now = year ∧ (createNumberedInvoice clientId none now).run.Ends
    (M := machine clients) i s (.error e) t

/-- A request of a year that runs alone succeeds. -/
def SuccessfulCall (clients : String → Option String) (clientId : String) (year : ℤ)
    (s : Db) : Prop :=
  ∃ i now invoice t, utcFullYear now = year ∧ (createNumberedInvoice clientId none now).run.Ends
    (M := machine clients) i s (.ok invoice) t

/-- However often a request is made after fifty taken numbers, it fails again. -/
theorem allocation_stuck : ¬ ∀ (clients : String → Option String) (db₀ : Db)
    (tr : List (Occurrence (machine clients))) (c : Config (machine clients)) (clientId : String)
    (organizationId : String) (year : ℤ), db₀.Start →
      Run (M := machine clients) Requested db₀ tr c → Db.Settled c.state →
      clients clientId = some organizationId →
      ∃ db, Relation.ReflTransGen (FailedCall clients clientId year) c.state db ∧
        SuccessfulCall clients clientId year db := by
  intro hall
  have hsettled : importedDb.Settled := ⟨importedDb_start.settled, rfl⟩
  have hattempt : ∀ i now, Attempt oneClient importedDb i "client" none "org" now := fun i now =>
    attempt rfl rfl hsettled
  obtain ⟨db, hcalls, i, now, invoice, t, hyear, hsuccess⟩ :=
    hall oneClient importedDb [] ⟨importedDb, []⟩ "client" "org" 2026 importedDb_start
      .init hsettled
      rfl
  have hstuck : ∀ db, Relation.ReflTransGen (FailedCall oneClient "client" 2026) importedDb db →
      db = importedDb := by
    intro db hcalls
    induction hcalls with
    | refl => rfl
    | tail _ hcall ih =>
      obtain ⟨i, now, e, -, hend⟩ := hcall
      rw [ih] at hend
      exact (hattempt i now).failed e _ hend
  rw [hstuck db hcalls] at hsuccess
  obtain ⟨k, hpos, hk, -, hfree⟩ := (hattempt i now).succeeds.mp ⟨invoice, t, hsuccess⟩
  rw [hyear] at hfree
  exact hfree (by simpa [Db.lastValue, importedDb] using importedDb_taken hpos hk)

end Ashbi.Numbering

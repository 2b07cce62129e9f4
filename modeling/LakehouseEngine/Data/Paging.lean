import LakehouseEngine.Data.Fallible

/-!
# Listings that are answered page by page

A loop requests a page, takes its items and goes on with the token it finds in the page.  Given
the pages a server has, the loop is run against their tokens: it gets every page up to the first
one after which it stops.
-/

namespace LakehouseEngine.Paging

/-- Why a listing has no result: a request or an item fails, or the loop has not ended yet. -/
inductive Stop (ε : Type) where
  | failed (error : ε)
  | unfinished

def lift {ε α : Type} (run : Except ε α) : Except (Stop ε) α := run.mapError .failed

variable {ρ θ π ι ε : Type}

/-- The request for the page a token names, the items of a page, and whether to go on. -/
structure Protocol (ρ θ π ι ε : Type) where
  request : Option θ → ρ
  items : π → Except ε (List ι)
  next : π → Option θ

/-- The loop: all items, and the requests that were sent for them.  An answer may depend on all
requests so far. -/
def collect (protocol : Protocol ρ θ π ι ε) (answer : List ρ → Except ε π) :
    ℕ → Option θ → List ρ → List ι → Except (Stop ε) (List ι × List ρ)
  | 0, _, _, _ => .error .unfinished
  | fuel + 1, token, sent, all => do
      let page ← lift (answer (sent ++ [protocol.request token]))
      let items ← lift (protocol.items page)
      match protocol.next page with
      | some following =>
          collect protocol answer fuel (some following) (sent ++ [protocol.request token])
            (all ++ items)
      | none => return (all ++ items, sent ++ [protocol.request token])

section Pages

variable (request : Option θ → ρ) (offered : π → Option θ)

/-- The requests for consecutive pages: each has the token of the page before it. -/
def requests : Option θ → List π → List ρ
  | _, [] => []
  | token, page :: pages => request token :: requests (offered page) pages

theorem length_requests (token : Option θ) (pages : List π) :
    (requests request offered token pages).length = pages.length := by
  induction pages generalizing token with
  | nil => rfl
  | cons page pages ih => rw [requests, List.length_cons, List.length_cons, ih]

/-- The token after some pages. -/
def lastToken (pages : List π) : Option θ := pages.getLast?.bind offered

theorem requests_append (before after : List π) :
    requests request offered none (before ++ after) =
      requests request offered none before ++
        requests request offered (lastToken offered before) after := by
  have general : ∀ token (before : List π), requests request offered token (before ++ after) =
      requests request offered token before ++
        requests request offered (if before = [] then
          token else lastToken offered before) after := by
    intro token before
    induction before generalizing token with
    | nil => rfl
    | cons page before ih =>
        rw [List.cons_append, requests, ih, requests, List.cons_append]
        congr 3
        rw [if_neg (List.cons_ne_nil page before)]
        cases before with
        | nil => rfl
        | cons other before => rw [if_neg (List.cons_ne_nil other before), lastToken, lastToken,
            List.getLast?_cons_cons]
  rw [general none before]
  cases before with
  | nil => rfl
  | cons page before => rw [if_neg (List.cons_ne_nil page before)]

/-- The server has these pages and gives each to whoever asks with the right tokens. -/
def Serves (answer : List ρ → Except ε π) (pages : List π) : Prop :=
  ∀ before page after, pages = before ++ page :: after →
    answer (requests request offered none (before ++ [page])) = .ok page

/-- Every page but the last has a token. -/
structure Paged (pages : List π) : Prop where
  some_page : pages ≠ []
  goes_on : ∀ page ∈ pages.dropLast, (offered page).isSome
  ends : ∀ page ∈ pages.getLast?, offered page = none

end Pages

variable {protocol : Protocol ρ θ π ι ε} {answer : List ρ → Except ε π} {offered : π → Option θ}
  {pages : List π}

theorem collect_more {fuel : ℕ} {token : Option θ} {following : θ} {sent : List ρ}
    {all items : List ι}
    {page : π} (got : answer (sent ++ [protocol.request token]) = .ok page)
    (made : protocol.items page = .ok items) (next : protocol.next page = some following) :
    collect protocol answer (fuel + 1) token sent all =
      collect protocol answer fuel (some following) (sent ++ [protocol.request token])
        (all ++ items) := by
  rw [collect, got, lift, Except.mapError, ok_bind, lift, made, Except.mapError, ok_bind, next]

theorem collect_last {fuel : ℕ} {token : Option θ} {sent : List ρ} {all items : List ι}
    {page : π} (got : answer (sent ++ [protocol.request token]) = .ok page)
    (made : protocol.items page = .ok items) (stops : protocol.next page = none) :
    collect protocol answer (fuel + 1) token sent all =
      .ok (all ++ items, sent ++ [protocol.request token]) := by
  rw [collect, got, lift, Except.mapError, ok_bind, lift, made, Except.mapError, ok_bind, stops]
  rfl

/-- The loop gets the pages up to the first one after which it stops. -/
theorem collect_until {front rest : List π} {last : π} {results : List (List ι)} {fuel : ℕ}
    (serves : Serves protocol.request offered answer (front ++ last :: rest))
    (goesOn : ∀ page ∈ front, ∃ token, protocol.next page = some token ∧ offered page = some token)
    (stops : protocol.next last = none)
    (converted : (front ++ [last]).mapM protocol.items = .ok results)
    (enough : front.length < fuel) :
    collect protocol answer fuel none [] [] =
      .ok (results.flatten, requests protocol.request offered none (front ++ [last])) := by
  -- The pages that were fetched before are kept as `done`; the induction is on those to come.
  have general : ∀ (todo done : List π) (results : List (List ι)) (all : List ι) (fuel : ℕ),
      front = done ++ todo → (todo ++ [last]).mapM protocol.items = .ok results →
        todo.length < fuel →
      collect protocol answer fuel (lastToken offered done)
          (requests protocol.request offered none done) all =
        .ok (all ++ results.flatten, requests protocol.request offered none (front ++ [last])) := by
    intro todo
    induction todo with
    | nil =>
        intro done results all fuel whole converted enough
        obtain ⟨fuel, rfl⟩ := Nat.exists_eq_add_one_of_ne_zero (Nat.ne_of_gt enough)
        rw [List.append_nil] at whole
        subst whole
        rw [List.nil_append, List.mapM_cons] at converted
        obtain ⟨items, made, run⟩ := exists_of_bind_ok converted
        cases run
        have sent := requests_append protocol.request offered front [last]
        have got := serves front last rest rfl
        rw [sent] at got
        rw [collect_last got made stops, sent, List.reverse_nil, List.flatten_singleton]
        rfl
    | cons page todo ih =>
        intro done results all fuel whole converted enough
        obtain ⟨fuel, rfl⟩ := Nat.exists_eq_add_one_of_ne_zero
          (Nat.ne_of_gt (Nat.zero_lt_of_lt enough))
        rw [List.cons_append, List.mapM_cons] at converted
        obtain ⟨items, made, run⟩ := exists_of_bind_ok converted
        obtain ⟨others, convertedRest, run⟩ := exists_of_bind_ok run
        cases run
        obtain ⟨token, next, offer⟩ := goesOn page (whole ▸ by simp)
        have sent := requests_append protocol.request offered done [page]
        have got := serves done page (todo ++ last :: rest) (by rw [whole, List.append_assoc]; rfl)
        rw [sent] at got
        have reached : lastToken offered (done ++ [page]) = some token := by
          rw [lastToken, List.getLast?_concat]
          exact offer
        have further := ih (done ++ [page]) others (all ++ items) fuel
          (by rw [whole, List.append_assoc]; rfl) convertedRest (Nat.lt_of_succ_lt_succ enough)
        rw [reached, sent] at further
        rw [collect_more got made next, List.flatten_cons, ← List.append_assoc]
        exact further
  have whole := general front [] results [] fuel rfl converted enough
  rwa [List.nil_append] at whole

/-- A loop that goes on as long as the pages have a token gets every page. -/
theorem collect_all {results : List (List ι)} {fuel : ℕ} (paged : Paged offered pages)
    (serves : Serves protocol.request offered answer pages)
    (follows : ∀ page ∈ pages, protocol.next page = offered page)
    (converted : pages.mapM protocol.items = .ok results) (enough : pages.length ≤ fuel) :
    collect protocol answer fuel none [] [] =
      .ok (results.flatten, requests protocol.request offered none pages) := by
  obtain ⟨front, last, rfl⟩ : ∃ front last, pages = front ++ [last] :=
    ⟨_, _, (List.dropLast_concat_getLast paged.some_page).symm⟩
  have goes := paged.goes_on
  rw [List.dropLast_concat] at goes
  rw [List.length_append, List.length_singleton] at enough
  refine collect_until serves ?_ ?_ converted enough
  · intro page member
    obtain ⟨token, offer⟩ := Option.isSome_iff_exists.mp (goes page member)
    exact ⟨token, (follows page (List.mem_append_left _ member)).trans offer, offer⟩
  · rw [follows last (by simp)]
    exact paged.ends last (by simp)

end LakehouseEngine.Paging

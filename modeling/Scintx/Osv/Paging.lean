/-
Scintx.Osv.Paging — what a query fetches, and whether it ends.

`Pages` is the whole story of a query that succeeds: the pages one after
the other, each asked for by the token of the one before. `query_spec`
says that a query gives the vulnerabilities of all its pages or the
error of its last exchange.

The loop goes on for as long as the server names a next page, whatever
page that is. A server that names one page twice is asked forever:
`query_terminates_iff` says which servers a query comes to an end with.
-/
import Scintx.Osv.Client

namespace Scintx.Osv

open Scintx.Lib Scintx.Api

section Given

variable [GoJson] {c : Client} {server : Server} {pkg : QueryPackage} {version : String}

/-- The exchange succeeded: there was an answer, no error status, and it
could be decoded. -/
def Exchange.Succeeded (x : Exchange) : Prop :=
  ∃ page body, readExchange x = .ok (page, body)

/-- The vulnerabilities an exchange brought. -/
def Exchange.vulns (x : Exchange) : List Vulnerability :=
  match readExchange x with
  | .error _ => []
  | .ok (page, _) => page.vulns

/-- `Pages c server pkg version wire token xs`: from the given token on the
server gives the exchanges `xs`, all of which succeed, and the last one
names no next page. -/
inductive Pages (c : Client) (server : Server) (pkg : QueryPackage) (version : String) :
    Wire → String → Wire → Prop
  | last {wire : Wire} {token body : String} {page : QueryResponse}
      (h : readExchange (c.ask server pkg version wire token).2 = .ok (page, body))
      (hend : page.nextPageToken = "") :
      Pages c server pkg version wire token [c.ask server pkg version wire token]
  | more {wire rest : Wire} {token body : String} {page : QueryResponse}
      (h : readExchange (c.ask server pkg version wire token).2 = .ok (page, body))
      (hmore : page.nextPageToken ≠ "")
      (hrest : Pages c server pkg version (wire ++ [c.ask server pkg version wire token])
        page.nextPageToken rest) :
      Pages c server pkg version wire token (c.ask server pkg version wire token :: rest)

/-- The vulnerabilities of all exchanges. -/
def Wire.vulns (xs : Wire) : List Vulnerability :=
  xs.flatMap fun x => x.2.vulns

theorem Pages.succeeded {wire xs : Wire} {token : String}
    (h : Pages c server pkg version wire token xs) : ∀ x ∈ xs, x.2.Succeeded := by
  induction h with
  | last h hend =>
    intro x hx
    obtain rfl := List.mem_singleton.mp hx
    exact ⟨_, _, h⟩
  | more h hmore hrest ih =>
    intro x hx
    rcases List.mem_cons.mp hx with rfl | hx
    · exact ⟨_, _, h⟩
    · exact ih x hx

/-! ## What a query comes to -/

/-- What queries that start on `wire` come to: exchanges of the kind `P`
with the vulnerabilities it says, or the error of an exchange after
others that succeeded. -/
inductive Fetched {ρ : Type} (wire : Wire) (P : Wire → List Vulnerability → Prop) :
    Except ClientError (List Vulnerability × ρ) × Wire → Prop
  | got {xs : Wire} {vulns : List Vulnerability} {raw : ρ} (h : P xs vulns) :
      Fetched wire P (.ok (vulns, raw), wire ++ xs)
  | failed {xs : Wire} {x : HttpRequest × Exchange} {e : ClientError}
      (hxs : ∀ y ∈ xs, y.2.Succeeded) (hx : readExchange x.2 = .error e) :
      Fetched wire P (.error e, wire ++ xs ++ [x])

theorem Fetched.got_nil {ρ : Type} {wire : Wire} {P : Wire → List Vulnerability → Prop}
    {vulns : List Vulnerability} (raw : ρ) (h : P [] vulns) :
    Fetched wire P (.ok (vulns, raw), wire) := by
  have hgot := @Fetched.got _ _ wire _ _ _ raw h
  rwa [List.append_nil] at hgot

/-- Queries that follow exchanges which succeeded. -/
theorem Fetched.after {ρ : Type} {wire xs : Wire} {P Q : Wire → List Vulnerability → Prop}
    {res : Except ClientError (List Vulnerability × ρ) × Wire} (h : Fetched (wire ++ xs) P res)
    (hxs : ∀ x ∈ xs, x.2.Succeeded) (hQ : ∀ ys vulns, P ys vulns → Q (xs ++ ys) vulns) :
    Fetched wire Q res := by
  cases h with
  | got h =>
    rw [List.append_assoc]
    exact .got (hQ _ _ h)
  | failed hys hx =>
    rw [List.append_assoc wire]
    exact .failed (List.forall_mem_append.mpr ⟨hxs, hys⟩) hx

/-- What has been fetched at the beginning of a round. -/
structure Fetching (c : Client) (server : Server) (pkg : QueryPackage) (version : String)
    (wire xs : Wire) (s : QueryState) : Prop where
  sent : s.wire = wire ++ xs
  all : s.all = xs.vulns
  succeeded : ∀ x ∈ xs, x.2.Succeeded
  rest : ∀ ys, Pages c server pkg version s.wire s.pageToken ys →
    Pages c server pkg version wire "" (xs ++ ys)

theorem Exchange.vulns_of_read {x : Exchange} {page : QueryResponse} {body : String}
    (h : readExchange x = .ok (page, body)) : x.vulns = page.vulns := by
  simp only [Exchange.vulns, h]

theorem Wire.vulns_append (xs ys : Wire) : Wire.vulns (xs ++ ys) = xs.vulns ++ ys.vulns :=
  List.flatMap_append

theorem Wire.vulns_append_singleton {xs : Wire} {x : HttpRequest × Exchange}
    {page : QueryResponse} {body : String} (h : readExchange x.2 = .ok (page, body)) :
    Wire.vulns (xs ++ [x]) = xs.vulns ++ page.vulns := by
  simp [Wire.vulns, Exchange.vulns_of_read h]

/-- **What a query comes to.** -/
theorem query_spec {rounds : Nat} {wire : Wire} {res : QueryResult}
    (h : c.query server rounds wire pkg version = some res) :
    Fetched wire
      (fun xs vulns => Pages c server pkg version wire "" xs ∧ vulns = xs.vulns) res := by
  refine loop_rule (I := fun s => ∃ xs, Fetching c server pkg version wire xs s) ?_ ?_ ?_ h
  · intro s s' hs hstep
    obtain ⟨xs, hsent, hall, hxs, hrest⟩ := hs
    simp only [Client.queryRound] at hstep
    split at hstep
    · cases hstep
    · rename_i page body hread
      split at hstep <;> cases hstep
      rename_i hmore
      refine ⟨xs ++ [c.ask server pkg version s.wire s.pageToken], ?_, ?_, ?_, ?_⟩
      · rw [← List.append_assoc, ← hsent]
      · rw [Wire.vulns_append_singleton hread, hall]
      · refine List.forall_mem_append.mpr ⟨hxs, List.forall_mem_singleton.mpr ?_⟩
        exact ⟨_, _, hread⟩
      · intro ys hys
        rw [List.append_assoc]
        exact hrest _ (.more hread hmore hys)
  · intro s res' hs hstep
    obtain ⟨xs, hsent, hall, hxs, hrest⟩ := hs
    simp only [Client.queryRound] at hstep
    split at hstep
    · rename_i e hread
      cases hstep
      nth_rewrite 1 [hsent]
      exact .failed hxs hread
    · rename_i page body hread
      split at hstep <;> cases hstep
      rename_i hend
      rw [hall, ← Wire.vulns_append_singleton hread, hsent, List.append_assoc, ← hsent]
      exact .got ⟨hrest _ (.last hread hend), rfl⟩
  · refine ⟨[], (List.append_nil wire).symm, rfl, ?_, fun ys hys => hys⟩
    intro x hx
    cases hx

/-- Pages that all succeed are fetched to the last one. -/
theorem Pages.loop_eq {wire xs : Wire} {token : String}
    (h : Pages c server pkg version wire token xs) (all : List Vulnerability)
    (rawPages : List String) : ∃ n raw,
      loop (c.queryRound server pkg version) n
        { wire := wire, all := all, rawPages := rawPages, pageToken := token } =
      some (.ok (all ++ xs.vulns, raw), wire ++ xs) := by
  induction h generalizing all rawPages with
  | @last wire token body page h hend =>
    refine ⟨1, GoJson.encodePages (rawPages ++ [body]) (all ++ page.vulns).length, ?_⟩
    refine loop_done ?_ 0
    simp only [Client.queryRound, h, if_pos hend]
    simp [Wire.vulns, Exchange.vulns_of_read h]
  | @more wire rest token body page h hmore hrest ih =>
    have hstep : c.queryRound server pkg version
          { wire := wire, all := all, rawPages := rawPages, pageToken := token } =
        .again { wire := wire ++ [c.ask server pkg version wire token]
                 all := all ++ page.vulns
                 rawPages := rawPages ++ [body]
                 pageToken := page.nextPageToken } := by
      simp only [Client.queryRound, h, if_neg hmore]
    obtain ⟨n, raw, hloop⟩ := ih (all ++ page.vulns) (rawPages ++ [body])
    refine ⟨n + 1, raw, ?_⟩
    rw [loop_again hstep, hloop]
    simp [Wire.vulns, Exchange.vulns_of_read h]

/-- A query whose pages all succeed comes to their vulnerabilities. -/
theorem Pages.query_eq {wire xs : Wire} (h : Pages c server pkg version wire "" xs)
    {rounds : Nat} {res : QueryResult} (hres : c.query server rounds wire pkg version = some res) :
    ∃ raw, res = (.ok (xs.vulns, raw), wire ++ xs) := by
  obtain ⟨n, raw, hloop⟩ := h.loop_eq [] []
  exact ⟨raw, loop_unique hres hloop⟩

/-! ## Whether a query ends -/

/-- The wire and the token with which the next page is asked for. -/
def Client.nextPage (c : Client) (server : Server) (pkg : QueryPackage) (version : String)
    (place : Wire × String) : Option (Wire × String) :=
  let exchange := c.ask server pkg version place.1 place.2
  match readExchange exchange.2 with
  | .error _ => none
  | .ok (page, _) =>
    if page.nextPageToken = "" then none else some (place.1 ++ [exchange], page.nextPageToken)

/-- However a query begins, its sequence of pages ends. -/
def PagesEnd (c : Client) (server : Server) : Prop :=
  ∀ wire pkg version, ∃ n, trail (c.nextPage server pkg version) (wire, "") n = none

theorem guided_nextPage (c : Client) (server : Server) (pkg : QueryPackage) (version : String) :
    Guided (c.queryRound server pkg version) (fun s => (s.wire, s.pageToken))
      (c.nextPage server pkg version) where
  again s s' hstep := by
    simp only [Client.queryRound] at hstep
    split at hstep
    · cases hstep
    · rename_i page body hread
      split at hstep <;> cases hstep
      rename_i hmore
      simp only [Client.nextPage, hread, if_neg hmore]
  done s r hstep := by
    simp only [Client.queryRound] at hstep
    split at hstep
    · rename_i e hread
      simp only [Client.nextPage, hread]
    · rename_i page body hread
      split at hstep <;> cases hstep
      rename_i hend
      simp only [Client.nextPage, hread, if_pos hend]

/-- A query of a server whose page sequences end has a result. -/
theorem query_ends (hend : PagesEnd c server) (wire : Wire) (pkg : QueryPackage)
    (version : String) : ∃ n res, ∀ rounds ≥ n,
      c.query server rounds wire pkg version = some res := by
  obtain ⟨n, hn⟩ := ((guided_nextPage c server pkg version).halts_iff
    { wire := wire }).mpr (hend wire pkg version)
  obtain ⟨res, hres⟩ := Option.isSome_iff_exists.mp hn
  exact ⟨n, res, fun rounds hle => loop_mono hres hle⟩

/-! ## A server that answers by the request alone -/

/-- The token such a server hands out for a token. -/
def Client.nextToken (c : Client) (answer : HttpRequest → Exchange) (pkg : QueryPackage)
    (version token : String) : Option String :=
  match readExchange (answer (c.request pkg version token)) with
  | .error _ => none
  | .ok (page, _) => if page.nextPageToken = "" then none else some page.nextPageToken

/-- The tokens it hands out in a query, from the empty one on, while there
is one. -/
def Client.tokens (c : Client) (answer : HttpRequest → Exchange) (pkg : QueryPackage)
    (version : String) (n : Nat) : Option String :=
  trail (c.nextToken answer pkg version) "" n

theorem nextToken_eq (c : Client) (answer : HttpRequest → Exchange) (pkg : QueryPackage)
    (version : String) (place : Wire × String) :
    c.nextToken answer pkg version place.2 =
      (c.nextPage (fun _ => answer) pkg version place).map Prod.snd := by
  simp only [Client.nextToken, Client.nextPage, Client.ask]
  cases readExchange (answer (c.request pkg version place.2)) with
  | error e => rfl
  | ok page =>
    simp only
    split <;> rfl

theorem guided_nextToken (c : Client) (answer : HttpRequest → Exchange) (pkg : QueryPackage)
    (version : String) :
    Guided (c.queryRound (fun _ => answer) pkg version) (·.pageToken)
      (c.nextToken answer pkg version) where
  again s s' hstep := by
    have hplace := (guided_nextPage c (fun _ => answer) pkg version).again s s' hstep
    rw [nextToken_eq c answer pkg version (s.wire, s.pageToken), hplace, Option.map_some]
  done s r hstep := by
    have hplace := (guided_nextPage c (fun _ => answer) pkg version).done s r hstep
    rw [nextToken_eq c answer pkg version (s.wire, s.pageToken), hplace, Option.map_none]

/-- **Which servers a query comes to an end with.** For a server that
answers by the request alone: a query ends within `n` requests if and
only if the tokens it hands out end there. If it hands out one token
twice the query never ends; if it has finitely many tokens, the query
ends if and only if it hands out none of them twice. -/
theorem query_terminates_iff (c : Client) (answer : HttpRequest → Exchange) (wire : Wire)
    (pkg : QueryPackage) (version : String) :
    (∀ n, (c.query (fun _ => answer) n wire pkg version).isSome ↔
      c.tokens answer pkg version n = none) ∧
    (∀ i j, i < j → c.tokens answer pkg version i = c.tokens answer pkg version j →
      c.tokens answer pkg version i ≠ none →
      ∀ n, c.query (fun _ => answer) n wire pkg version = none) ∧
    ({t | ∃ n, c.tokens answer pkg version n = some t}.Finite →
      ((∃ n, (c.query (fun _ => answer) n wire pkg version).isSome) ↔
        ∀ i j, i < j → c.tokens answer pkg version i = c.tokens answer pkg version j →
          c.tokens answer pkg version i = none)) := by
  have hends (n : Nat) : (c.query (fun _ => answer) n wire pkg version).isSome ↔
      c.tokens answer pkg version n = none :=
    (guided_nextToken c answer pkg version).isSome_loop_iff n { wire := wire }
  refine ⟨hends, ?_, ?_⟩
  · intro i j hlt heq hsome n
    obtain ⟨u, hu⟩ := Option.ne_none_iff_exists'.mp hsome
    have hu' : c.tokens answer pkg version j = some u := heq ▸ hu
    rw [← Option.not_isSome_iff_eq_none, hends]
    exact trail_of_repeat hlt hu hu' n
  · intro hfin
    rw [exists_congr hends]
    exact trail_ends_iff_of_finite hfin

end Given

/-- The answers in a table, by their texts. -/
@[reducible] def GoJson.plain (table : List (String × QueryResponse)) : GoJson where
  decode body := ((table.find? (·.1 = body)).map (·.2)).elim (.error "unexpected end") .ok
  encodePages pages count := join pages "," ++ toString count
  encodeFallback _ pages count := join pages "," ++ toString count

/-- A mirror that names the same page in every answer is asked forever. -/
theorem repeated_token_never_ends :
    let body := "\x7b\"vulns\":[],\"next_page_token\":\"p\"\x7d"
    let _ := GoJson.plain [(body, { vulns := [], nextPageToken := "p" })]
    ¬ ∃ rounds, (Client.query {} (fun _ _ => .answered 200 body) rounds []
      { purl := "pkg:npm/left-pad@1.3.0" } "").isSome := by
  intro body _ hex
  obtain ⟨rounds, hrounds⟩ := hex
  have hend := ((guided_nextToken {} (fun _ => .answered 200 body)
    { purl := "pkg:npm/left-pad@1.3.0" } "").isSome_loop_iff rounds { wire := [] }).mp hrounds
  -- the second token is the third one again
  exact trail_of_repeat (i := 1) (j := 2) (u := "p") (by decide) (by decide +kernel)
    (by decide +kernel) rounds hend

end Scintx.Osv

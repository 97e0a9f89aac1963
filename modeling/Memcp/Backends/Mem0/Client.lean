import Memcp.Backends.Base
import Memcp.Interaction.Fallible

/-!
The HTTP client of the mem0 backend: requests, and what is made of the
responses.
-/

namespace Memcp.Mem0

open Python Interaction

/-- The JSON of a search. -/
structure SearchPayload where
  query : String
  filters : Dict String Json
  topK : Int
  threshold : ℚ

/-- The requests the adapter sends, by method and path. -/
inductive HttpRequest where
  | postMemories (json : Dict String Json)
  | postSearch (json : SearchPayload)
  | getMemories (params : Dict String Json)
  | deleteMemories (params : Dict String Json)
  | getMemory (memoryId : String)
  | putMemory (memoryId : String) (json : Dict String Json)
  | deleteMemory (memoryId : String)
  | getHistory (memoryId : String)

/-- The content of a response, as `resp.json()` reads it. -/
inductive Content where
  | empty
  | json (value : Json)
  | invalid

inductive HttpResponse where
  | timeoutException (message : String)
  | requestError (message : String)
  | response (statusCode : Int) (text : String) (content : Content)

/-- What `Mem0Client.request` returns or raises: JSON, `None` for no content. -/
def HttpResponse.outcome : HttpResponse → Except Exc Json
  | .timeoutException message => .error (.memoryAPIError 408 ("Timeout: " ++ message))
  | .requestError message => .error (.memoryAPIError 503 ("Network error: " ++ message))
  | .response statusCode text content =>
      if 400 ≤ statusCode then .error (.memoryAPIError statusCode text)
      else
        match content with
        | .empty => .ok .null
        | .json value => .ok value
        | .invalid => .error (.memoryAPIError 502 text)

/-- A response with a JSON body. -/
def HttpResponse.json (value : Json) : HttpResponse := .response 200 "" (.json value)

@[simp] theorem HttpResponse.outcome_json (value : Json) :
    (HttpResponse.json value).outcome = .ok value := rfl

abbrev http : Signature where
  Call := HttpRequest
  Reply _ := HttpResponse

/-- Code that sends requests. -/
abbrev Http := Fallible http Exc

def request (call : HttpRequest) : Http Json :=
  @Program.ask http _ call fun response => .done response.outcome

end Memcp.Mem0

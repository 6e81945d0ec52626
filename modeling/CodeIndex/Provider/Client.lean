import CodeIndex.Json.Printer
import CodeIndex.Provider.Response

namespace CodeIndex

structure HttpRequest where
  address : String
  authorization : String
  body : Json
deriving Inhabited

structure EmbeddingClient where
  address : String := "https://openrouter.ai/api/v1/embeddings"
  apiKey : String
  model : String := "qwen/qwen3-embedding-8b"
  dimensions : Nat := 4096
  maxBatch : Nat := 32
deriving Repr, Inhabited

namespace EmbeddingClient

def withMaxBatch (c : EmbeddingClient) (size : Nat) : EmbeddingClient :=
  { c with maxBatch := max size 1 }

def request (c : EmbeddingClient) (texts : List String) : HttpRequest where
  address := c.address
  authorization := "Bearer " ++ c.apiKey
  body := .record [("model", .text c.model), ("input", .array (texts.map .text))]

/-- The vectors of some texts, given how requests are answered. No texts need no request. -/
def embed (c : EmbeddingClient) (send : HttpRequest → Option HttpResponse) (texts : List String) :
    Except EmbedError (List Embedding) :=
  if texts.isEmpty then .ok []
  else match send (c.request texts) with
  | some r => r.vectors texts.length c.dimensions
  | none => .error (.transient "request failed")

end EmbeddingClient

end CodeIndex
